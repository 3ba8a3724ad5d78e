import Nomo.Lib.Program

/-!
# Tokens

The tokens of a source file (`nomo_syntax/src/lexer.rs:4–88`) and what the parser asks of them
(`nomo_syntax/src/parser.rs:412–549`). The constructors of the keywords have `kw` in front.
-/

namespace Nomo.Syntax

/-- `TokenKind`. -/
inductive TokenKind
  | kwPackage | kwImport | kwPub | kwImpl | kwInterface | kwUnsafe | kwExtern | kwSuspend | kwFn
  | kwStruct | kwEnum | kwIf | kwElse | kwMatch | kwPanic | kwAs | kwLet | kwMut | kwReturn | kwVoid
  | kwTrue | kwFalse | kwFor | kwIn | kwBreak | kwContinue | kwDefer | kwConst
  | ident (value : String)
  | string (value : String)
  | int (value : ℕ)
  | float (value : String)
  | char (value : Char)
  | dot | comma | semicolon | colon
  | equal | equalEqual | plusEqual | minusEqual | starEqual | slashEqual | percentEqual
  | bang | bangEqual
  | amp | ampEqual | ampAmp | ampCaret | ampCaretEqual
  | pipe | pipeEqual | pipePipe
  | caret | caretEqual
  | plus | plusPlus | minus | minusMinus
  | star | slash | percent | question | hash
  | less | lessEqual | lessLess | lessLessEqual
  | greater | greaterEqual | greaterGreater | greaterGreaterEqual
  | lParen | rParen | lBracket | rBracket | lBrace | rBrace
  | arrow | fatArrow
  | newline
  | eof
deriving DecidableEq

/-- `Token`: a kind and its place, with the text of its line. -/
structure Token where
  kind : TokenKind
  line : ℕ
  column : ℕ
  text : String
deriving DecidableEq

/-- The tokens of a line, by their columns. -/
def lineTokens (line : ℕ) (text : String) (tokens : List (ℕ × TokenKind)) : List Token :=
  tokens.map fun (column, kind) => ⟨kind, line, column, text⟩

/-- `Token::length`. -/
def Token.length (token : Token) : ℕ :=
  match token.kind with
  | .ident value | .string value => max value.utf8ByteSize 1
  | .int value => (toString value).length
  | .float value => value.utf8ByteSize
  | .char value => value.utf8Size + 2
  | .arrow | .fatArrow | .equalEqual | .bangEqual | .ampAmp | .pipePipe | .ampCaret | .plusEqual
  | .minusEqual | .starEqual | .slashEqual | .percentEqual | .plusPlus | .minusMinus | .ampEqual
  | .pipeEqual | .caretEqual | .lessEqual | .lessLess | .greaterEqual | .greaterGreater => 2
  | .ampCaretEqual | .lessLessEqual | .greaterGreaterEqual => 3
  | _ => 1

/-- `Span`. -/
structure Span where
  line : ℕ
  column : ℕ
  length : ℕ
  text : String
deriving DecidableEq

/-- `token_span`. -/
def tokenSpan (token : Token) : Span where
  line := token.line
  column := token.column
  length := token.length
  text := token.text

/-- `Diagnostic`, without the path of the file. -/
structure Diagnostic where
  code : String
  message : String
  span : Span
deriving DecidableEq

/-- The tokens that are left, and the end-of-file token that every `peek` behind them gives. -/
structure TokenStream where
  rest : List Token
  eof : Token
  eof_kind : eof.kind = .eof

namespace TokenStream

variable (stream : TokenStream)

/-- `peek_n`. -/
def peekN (offset : ℕ) : Token := stream.rest[offset]?.getD stream.eof

/-- `peek`. -/
def peek : Token := stream.rest.head?.getD stream.eof

/-- `advance`: the end-of-file token stays. -/
def advance : TokenStream :=
  if stream.peek.kind = .eof then stream else { stream with rest := stream.rest.tail }

/-- `consume_newline`. -/
def consumeNewline : TokenStream :=
  { stream with rest := stream.rest.dropWhile (·.kind = .newline) }

theorem advance_spec :
    (stream.peek.kind = .eof ∧ stream.advance = stream) ∨
      (stream.peek.kind ≠ .eof ∧ stream.rest = stream.peek :: stream.advance.rest ∧
        stream.advance.eof = stream.eof) := by
  unfold advance
  split_ifs with h
  · exact .inl ⟨h, rfl⟩
  · refine .inr ⟨h, ?_, rfl⟩
    cases hrest : stream.rest with
    | nil => simp [peek, hrest, stream.eof_kind] at h
    | cons token rest => simp [peek, hrest]

end TokenStream

/-! ## Looking ahead -/

/-- `assign_op_from_token(kind).is_some()`. -/
def isAssignOp : TokenKind → Bool
  | .equal | .plusEqual | .minusEqual | .starEqual | .slashEqual | .percentEqual | .lessLessEqual
  | .greaterGreaterEqual | .ampEqual | .caretEqual | .pipeEqual | .ampCaretEqual => true
  | _ => false

/-- `postfix_op_from_token(kind).is_some()`. -/
def isPostfixOp : TokenKind → Bool
  | .plusPlus | .minusMinus => true
  | _ => false

/-- A kind that is an identifier. -/
def isIdent : TokenKind → Bool
  | .ident _ => true
  | _ => false

/-- `starts_index_assignment` from the token after the name, with the brackets open so far. -/
def indexAssignmentFrom : ℕ → List Token → Bool
  | _, [] => false
  | depth, token :: rest =>
    match token.kind with
    | .lBracket => indexAssignmentFrom (depth + 1) rest
    | .rBracket => if depth = 0 then false else indexAssignmentFrom (depth - 1) rest
    | .equal => if depth = 0 then true else indexAssignmentFrom depth rest
    | .newline | .semicolon | .eof => false
    | _ => indexAssignmentFrom depth rest

/-- The tokens go on with an opening parenthesis, after newlines or at once. -/
def goesOnWithParen (tokens : List Token) : Bool :=
  (tokens.dropWhile (·.kind = .newline)).head?.any (·.kind = .lParen)

/-- `next_tokens_are_call_type_args` from a token on, with the angle brackets open so far. -/
def callTypeArgsFrom : ℕ → List Token → Bool
  | _, [] => false
  | depth, token :: rest =>
    match token.kind with
    | .less => callTypeArgsFrom (depth + 1) rest
    | .greater =>
      if depth = 0 then false
      else if depth = 1 then goesOnWithParen rest
      else callTypeArgsFrom (depth - 1) rest
    | .greaterGreater =>
      if depth < 2 then false
      else if depth = 2 then goesOnWithParen rest
      else callTypeArgsFrom (depth - 2) rest
    | .eof => false
    | _ => callTypeArgsFrom depth rest

/-- What the parser asks about the tokens ahead before it takes one. -/
inductive Lookahead
  /-- A newline and a dot: a path goes on in the next line. -/
  | newlineDot
  /-- `task fn`. -/
  | taskFn
  /-- `task.name`. -/
  | taskDot (name : String)
  /-- `if let`. -/
  | ifLet
  /-- A name and `in`. -/
  | nameIn
  /-- `starts_index_assignment`. -/
  | startsIndexAssignment
  /-- A variable or a field, and an assignment operator. -/
  | startsAssign
  /-- A variable or a field, and an increment or a decrement. -/
  | startsPostfix
  /-- `is_extern_opaque_type`, after `extern`. -/
  | opaqueType

namespace TokenStream

variable (stream : TokenStream)

/-- A variable or a field, and an operator. -/
def targetThen (isOp : TokenKind → Bool) : Bool :=
  isIdent stream.peek.kind && (isOp (stream.peekN 1).kind ||
    ((stream.peekN 1).kind = .dot && isOp (stream.peekN 3).kind))

/-- The answer to a question. -/
def answer : Lookahead → Bool
  | .newlineDot => stream.peek.kind = .newline && (stream.peekN 1).kind = .dot
  | .taskFn => stream.peek.kind = .ident "task" && (stream.peekN 1).kind = .kwFn
  | .taskDot name =>
    stream.peek.kind = .ident "task" && (stream.peekN 1).kind = .dot &&
      (stream.peekN 2).kind = .ident name
  | .ifLet => stream.peek.kind = .kwIf && (stream.peekN 1).kind = .kwLet
  | .nameIn => isIdent stream.peek.kind && (stream.peekN 1).kind = .kwIn
  | .startsIndexAssignment =>
    isIdent stream.peek.kind && (stream.peekN 1).kind = .lBracket &&
      indexAssignmentFrom 0 stream.rest.tail
  | .startsAssign => stream.targetThen isAssignOp
  | .startsPostfix => stream.targetThen isPostfixOp
  | .opaqueType =>
    stream.peek.kind = .kwExtern && (stream.peekN 1).kind = .ident "opaque" &&
      (stream.peekN 2).kind = .ident "type"

theorem peek_consumeNewline (h : stream.answer .newlineDot = true) :
    stream.consumeNewline.peek.kind = .dot := by
  rw [answer, Bool.and_eq_true, decide_eq_true_eq, decide_eq_true_eq] at h
  obtain ⟨hnewline, hdot⟩ := h
  simp only [peek, peekN] at hnewline hdot
  simp only [peek, consumeNewline]
  cases hrest : stream.rest with
  | nil => simp [hrest, stream.eof_kind] at hnewline
  | cons first rest =>
    cases rest with
    | nil => simp [hrest, stream.eof_kind] at hdot
    | cons second rest =>
      simp only [hrest, List.head?_cons, Option.getD_some, List.getElem?_cons_succ,
        List.getElem?_cons_zero] at hnewline hdot
      simp [hnewline, hdot]

/-- `next_tokens_are_call_type_args`. -/
def nextTokensAreCallTypeArgs : Bool :=
  if stream.peek.kind = .less then callTypeArgsFrom 0 stream.rest else false

end TokenStream

end Nomo.Syntax
