import Nomo.Syntax.StmtReads

/-!
# What a statement depends on

A statement that is followed by the end of its block is read again, followed by other statements
(`parsesAlike_iff`). The parser looks no further than one token behind the newline, but for one
question: whether a `<` opens type arguments, which it asks by a scan without an end.
-/

namespace Nomo.Syntax

open Nomo.Lib Parse

/-! ## What stands behind a statement -/

/-- A token of some kinds, with newlines before it. -/
def Behind (first : TokenKind → Bool) (rest : List Token) : Prop :=
  ∃ token, (rest.dropWhile (·.kind = .newline)).head? = some token ∧ first token.kind = true

/-- The end of the block. -/
def EndsBlock : List Token → Prop := Behind fun kind => kind = .rBrace

/-- The kinds of the tokens that a statement can start with. -/
def startsStmt : TokenKind → Bool
  | .kwLet | .kwReturn | .kwFor | .kwBreak | .kwContinue | .kwDefer | .kwUnsafe => true
  | .lParen | .lBracket | .kwIf | .kwMatch | .kwPanic | .ident _ | .bang | .minus => true
  | kind => (literal kind).isSome

/-- Further statements. -/
def GoesOn : List Token → Prop := Behind startsStmt

/-! ### What a statement starts with -/

/-- A program stops where the next token is of no kind that a statement starts with. -/
def StartsStmt {α : Type} (types : ℕ) (p : Parse α) (s : Parser) : Prop :=
  ∀ a t, p.run (ParseInstr.handle types) s = .ok (a, t) → startsStmt s.stream.peek.kind = true

section StartsStmt

variable {types : ℕ} {α β : Type} {s : Parser}

theorem StartsStmt.bind {p : Parse α} {f : α → Parse β} (h : StartsStmt types p s) :
    StartsStmt types (p >>= f) s := by
  intro b t hrun
  obtain ⟨a, u, hp, -⟩ := Program.run_bind_eq_ok.1 hrun
  exact h a u hp

theorem StartsStmt.peek {f : Token → Parse α} (h : StartsStmt types (f s.stream.peek) s) :
    StartsStmt types (Parse.peek >>= f) s := by
  intro a t hrun
  obtain ⟨token, u, hpeek, hf⟩ := Program.run_bind_eq_ok.1 hrun
  cases hpeek
  exact h a t hf

theorem StartsStmt.askIf {question : Lookahead} {p q : Parse α}
    (hyes : s.stream.answer question = true → startsStmt s.stream.peek.kind = true)
    (hno : StartsStmt types q s) :
    StartsStmt types (Parse.ask question >>= fun yes => if yes = true then p else q) s := by
  intro a t hrun
  obtain ⟨yes, u, hask, hrest⟩ := Program.run_bind_eq_ok.1 hrun
  cases hask
  split_ifs at hrest with hanswer
  · exact hyes hanswer
  · exact hno a t hrest

theorem StartsStmt.of_kind {p : Parse α} (h : startsStmt s.stream.peek.kind = true) : StartsStmt types p s :=
  fun _ _ _ => h

theorem StartsStmt.error {code message : String} {length : Token → ℕ} :
    StartsStmt types (Parse.error code message length : Parse α) s := StartsStmt.peek nofun

theorem startsStmt_ident {kind : TokenKind} (h : isIdent kind = true) : startsStmt kind = true := by
  cases kind with
  | ident value => rfl
  | _ => cases h

theorem startsStmt_literal {kind : TokenKind} {expr : Expr} (h : literal kind = some expr) :
    startsStmt kind = true := by
  cases kind with
  | string _ | int _ | float _ | char _ | kwTrue | kwFalse | kwVoid => rfl
  | _ => cases h

theorem parsePrimaryExpr_starts (r : Recursive) : StartsStmt types (parsePrimaryExpr r) s := by
  refine StartsStmt.peek ?_
  split
  · rename_i expr hliteral
    exact StartsStmt.of_kind (startsStmt_literal hliteral)
  split
  iterate 6
    rename_i hkind
    exact StartsStmt.of_kind (by rw [hkind]; rfl)
  exact StartsStmt.error

theorem parseLogicalOrExpr_starts (r : Recursive) : StartsStmt types (parseLogicalOrExpr r) s := by
  have hunary : StartsStmt types (parseUnaryExpr r) s := by
    refine StartsStmt.peek ?_
    split
    · rename_i hkind
      exact StartsStmt.of_kind (by rw [hkind]; rfl)
    · rename_i hkind
      exact StartsStmt.of_kind (by rw [hkind]; rfl)
    · exact StartsStmt.bind (parsePrimaryExpr_starts r)
  have hcast : StartsStmt types (parseCastExpr r) s := StartsStmt.bind hunary
  -- each level starts with an operand, which is of the next level
  exact StartsStmt.bind (.bind (.bind (.bind (.bind (.bind hcast)))))

theorem parseExpr_starts (depth : ℕ) : StartsStmt types (recursive depth).parseExpr s := by
  cases depth with
  | zero => nofun
  | succ depth => exact parseLogicalOrExpr_starts _

/-- **A statement starts** with a token of these kinds. -/
theorem parseStmt_starts (depth : ℕ) : StartsStmt types (recursive depth).parseStmt s := by
  cases depth with
  | zero => nofun
  | succ depth =>
    have htask (name : String) (h : s.stream.answer (.taskDot name) = true) :
        startsStmt s.stream.peek.kind = true := by
      simp only [TokenStream.answer, Bool.and_eq_true, decide_eq_true_eq] at h
      rw [h.1.1]
      rfl
    have htarget (isOp : TokenKind → Bool) (h : s.stream.targetThen isOp = true) :
        startsStmt s.stream.peek.kind = true :=
      startsStmt_ident (Bool.and_eq_true_iff.1 h).1
    refine StartsStmt.peek ?_
    refine StartsStmt.askIf (htask _) (StartsStmt.askIf (htask _) (StartsStmt.askIf (htask _) ?_))
    split_ifs with hlet
    · exact StartsStmt.of_kind (by rw [hlet]; rfl)
    refine StartsStmt.askIf (fun h => ?_) ?_
    · simp only [TokenStream.answer, Bool.and_eq_true, decide_eq_true_eq] at h
      rw [h.1]
      rfl
    split
    · rename_i stmt hkeyword
      refine StartsStmt.of_kind ?_
      unfold keywordStmt at hkeyword
      split at hkeyword
      iterate 7
        rename_i hkind
        rw [hkind]
        rfl
      cases hkeyword
    · refine StartsStmt.askIf (fun h => ?_) ?_
      · simp only [TokenStream.answer, Bool.and_eq_true] at h
        exact startsStmt_ident h.1.1
      · exact StartsStmt.askIf (htarget _) (.askIf (htarget _) (.bind (parseExpr_starts depth)))

end StartsStmt

/-! ### What the parser looks for -/

/-- What the parser looks for behind a newline is not there. -/
structure Separates (tail : List Token) : Prop where
  /-- The tokens start with a newline. -/
  starts : ∃ newline rest, tail = newline :: rest ∧ newline.kind = .newline
  /-- The next token neither goes on with a path nor assigns. -/
  second : ∀ token, tail[1]? = some token →
    token.kind ≠ .dot ∧ isAssignOp token.kind = false ∧ isPostfixOp token.kind = false

theorem Behind.separates {first : TokenKind → Bool} {newline : Token} {rest : List Token}
    (hnewline : newline.kind = .newline) (h : Behind first rest)
    (hfirst : ∀ kind, first kind = true →
      kind ≠ .dot ∧ isAssignOp kind = false ∧ isPostfixOp kind = false) : Separates (newline :: rest) := by
  obtain ⟨token, hhead, htoken⟩ := h
  refine ⟨⟨newline, rest, rfl, hnewline⟩, fun second hsecond => ?_⟩
  cases rest with
  | nil => cases hsecond
  | cons head rest =>
    obtain rfl := Option.some.inj hsecond
    by_cases hkind : head.kind = .newline
    · simp [hkind, isAssignOp, isPostfixOp]
    · simp only [List.dropWhile_cons, hkind, decide_false, Bool.false_eq_true, if_false,
        List.head?_cons, Option.some.injEq] at hhead
      exact hfirst _ (hhead ▸ htoken)

variable {newline : Token} {rest : List Token}

theorem EndsBlock.separates (hnewline : newline.kind = .newline) (h : EndsBlock rest) :
    Separates (newline :: rest) := by
  refine Behind.separates hnewline h fun kind hkind => ?_
  obtain rfl := of_decide_eq_true hkind
  simp [isAssignOp, isPostfixOp]

theorem GoesOn.separates (hnewline : newline.kind = .newline) (h : GoesOn rest) :
    Separates (newline :: rest) := by
  refine Behind.separates hnewline h fun kind hkind => ?_
  cases kind with
  | dot | equal | plusEqual | minusEqual | starEqual | slashEqual | percentEqual | lessLessEqual
      | greaterGreaterEqual | ampEqual | caretEqual | pipeEqual | ampCaretEqual | plusPlus
      | minusMinus => cases hkind
  | _ => exact ⟨nofun, rfl, rfl⟩

/-! ## Two streams with one front -/

/-- The same tokens are ahead, up to the end of the statement. -/
def SameFront (tail tail' : List Token) (s s' : TokenStream) : Prop :=
  ∃ front, s.rest = front ++ tail ∧ s'.rest = front ++ tail'

/-- The end of the statement is still ahead. -/
def Ahead (tail : List Token) (s : TokenStream) : Prop := tail <:+ s.rest

section Front

variable {tail tail' front : List Token} {s s' : TokenStream}

theorem Separates.kind_newline (h : Separates tail) (hs : s.rest = front ++ tail) :
    (s.peekN front.length).kind = .newline := by
  obtain ⟨newline, rest, rfl, hkind⟩ := h.starts
  simpa [TokenStream.peekN, hs] using hkind

theorem Separates.kind_second (h : Separates tail) (hs : s.rest = front ++ tail) :
    (s.peekN (front.length + 1)).kind ≠ .dot ∧
      isAssignOp (s.peekN (front.length + 1)).kind = false ∧
      isPostfixOp (s.peekN (front.length + 1)).kind = false := by
  have hsecond : s.peekN (front.length + 1) = tail[1]?.getD s.eof := by
    simp [TokenStream.peekN, hs, List.getElem?_append_right]
  rw [hsecond]
  cases htoken : tail[1]? with
  | none => simp [s.eof_kind, isAssignOp, isPostfixOp]
  | some token => exact h.second token htoken

theorem peekN_eq (hhead : tail.head? = tail'.head?) (h : Separates tail) (hs : s.rest = front ++ tail)
    (hs' : s'.rest = front ++ tail') {offset : ℕ} (hoffset : offset ≤ front.length) :
    s.peekN offset = s'.peekN offset := by
  unfold TokenStream.peekN
  rw [hs, hs']
  rcases hoffset.lt_or_eq with hlt | rfl
  · rw [List.getElem?_append_left hlt, List.getElem?_append_left hlt, List.getElem?_eq_getElem hlt]
    rfl
  · obtain ⟨newline, rest, rfl, -⟩ := h.starts
    rw [List.getElem?_append_right le_rfl, List.getElem?_append_right le_rfl, Nat.sub_self,
      ← List.head?_eq_getElem?, ← List.head?_eq_getElem?, ← hhead]
    rfl

theorem indexAssignmentFrom_append (h : Separates tail) (depth : ℕ) (front : List Token) :
    indexAssignmentFrom depth (front ++ tail) = indexAssignmentFrom depth front := by
  induction front generalizing depth with
  | nil =>
    obtain ⟨newline, rest, rfl, hkind⟩ := h.starts
    simp [indexAssignmentFrom, hkind]
  | cons token front ih => simp only [List.cons_append, indexAssignmentFrom, ih]

theorem peek_eq_peekN (s : TokenStream) : s.peek = s.peekN 0 := by
  rw [TokenStream.peek, TokenStream.peekN, List.head?_eq_getElem?]

/-- **Every question has the same answer**: none looks further than one token behind the newline. -/
theorem answer_eq (hhead : tail.head? = tail'.head?) (h : Separates tail) (h' : Separates tail')
    (hs : s.rest = front ++ tail) (hs' : s'.rest = front ++ tail') (question : Lookahead) :
    s.answer question = s'.answer question := by
  have hnext {offset : ℕ} (hoffset : offset ≤ front.length) := peekN_eq hhead h hs hs' hoffset
  have hscan (hfront : front ≠ []) :
      indexAssignmentFrom 0 s.rest.tail = indexAssignmentFrom 0 s'.rest.tail := by
    obtain ⟨token, front, rfl⟩ := List.exists_cons_of_ne_nil hfront
    rw [hs, hs', List.cons_append, List.cons_append, List.tail_cons, List.tail_cons,
      indexAssignmentFrom_append h, indexAssignmentFrom_append h']
  have hnewline := h.kind_newline hs
  have hnewline' := h'.kind_newline hs'
  have hsecond := h.kind_second hs
  have hsecond' := h'.kind_second hs'
  -- the newline is the first, the second or the third token, or none of these
  rcases front with _ | ⟨first, _ | ⟨second, _ | ⟨third, front⟩⟩⟩
  · simp only [List.length_nil, Nat.zero_add] at hnewline hnewline' hsecond hsecond'
    cases question <;>
      simp [TokenStream.answer, TokenStream.targetThen, peek_eq_peekN, hnewline, hnewline', hsecond,
        hsecond', isIdent]
  · have h0 := @hnext 0 (by simp)
    simp only [List.length_singleton] at hnewline hnewline'
    cases question <;>
      simp [TokenStream.answer, TokenStream.targetThen, peek_eq_peekN, hnewline, hnewline', h0, isAssignOp,
        isPostfixOp]
  · have h0 := @hnext 0 (by simp)
    have h1 := @hnext 1 (by simp)
    have h2 := @hnext 2 (by simp)
    simp only [List.length_cons, List.length_nil, Nat.zero_add, Nat.reduceAdd] at hsecond hsecond'
    cases question <;>
      simp [TokenStream.answer, TokenStream.targetThen, peek_eq_peekN, h0, h1, h2, hsecond, hsecond', hscan]
  · have h0 := @hnext 0 (by simp)
    have h1 := @hnext 1 (by simp)
    have h2 := @hnext 2 (by simp)
    have h3 := @hnext 3 (by simp)
    cases question <;>
      simp [TokenStream.answer, TokenStream.targetThen, peek_eq_peekN, h0, h1, h2, h3, hscan]

theorem advance_sameFront (h : Separates tail) (hs : s.rest = front ++ tail)
    (hs' : s'.rest = front ++ tail') (hahead : Ahead tail s.advance) :
    SameFront tail tail' s.advance s'.advance := by
  cases front with
  | nil =>
    obtain ⟨newline, rest, rfl, hnewline⟩ := h.starts
    have hshort := hahead.length_le
    simp [TokenStream.advance, TokenStream.peek, hs, hnewline] at hshort
  | cons token front =>
    by_cases hkind : token.kind = .eof
    · refine ⟨token :: front, ?_, ?_⟩
      · simp [TokenStream.advance, TokenStream.peek, hs, hkind]
      · simp [TokenStream.advance, TokenStream.peek, hs', hkind]
    · refine ⟨front, ?_, ?_⟩
      · simp [TokenStream.advance, TokenStream.peek, hs, hkind]
      · simp [TokenStream.advance, TokenStream.peek, hs', hkind]

theorem consumeNewline_sameFront (h : Separates tail) (hs : s.rest = front ++ tail)
    (hs' : s'.rest = front ++ tail') (hahead : Ahead tail s.consumeNewline) :
    SameFront tail tail' s.consumeNewline s'.consumeNewline := by
  have hahead : tail <:+ s.rest.dropWhile (·.kind = .newline) := hahead
  have hshort : (tail.dropWhile (·.kind = .newline)).length < tail.length := by
    obtain ⟨newline, rest, rfl, hnewline⟩ := h.starts
    simpa [hnewline, Nat.lt_succ_iff] using (List.dropWhile_suffix _).length_le
  rw [hs, List.dropWhile_append] at hahead
  split_ifs at hahead with hfront
  · exact absurd hahead.length_le (Nat.not_le.2 hshort)
  refine ⟨front.dropWhile (·.kind = .newline), ?_, ?_⟩
  · show s.rest.dropWhile _ = _
    rw [hs, List.dropWhile_append, if_neg hfront]
  · show s'.rest.dropWhile _ = _
    rw [hs', List.dropWhile_append, if_neg hfront]

end Front

/-! ## Two runs -/

/-- The parser with other tokens ahead. -/
def Parser.ahead (s : Parser) (tokens : List Token) : Parser :=
  { s with stream := { s.stream with rest := tokens } }

section Alike

variable (tail tail' : List Token)

/-- Two states of the parser of types that differ behind the statement. -/
structure TypeState.Alike (s s' : TypeState) : Prop where
  stream : SameFront tail tail' s.stream s'.stream
  pendingTypeGt : s.pendingTypeGt = s'.pendingTypeGt

/-- Two states of the parser that differ behind the statement. -/
structure Parser.Alike (s s' : Parser) : Prop where
  types : TypeState.Alike tail tail' s.typeState s'.typeState
  allowStructLiterals : s.allowStructLiterals = s'.allowStructLiterals
  implSelfType : s.implSelfType = s'.implSelfType

/-- Where the parser asks whether a `<` opens type arguments, the scan has the same answer before either
of the two. -/
def ScansAlike (step : Program.Step ParseInstr ParseInstr.Answer Parser) : Prop :=
  step.instruction = .callTypeArgs → ∀ front, step.before.stream.rest = front ++ tail →
    step.before.stream.nextTokensAreCallTypeArgs =
      (step.before.ahead (front ++ tail')).stream.nextTokensAreCallTypeArgs

end Alike

section Runs

variable {tail tail' : List Token}

theorem nextTokensAreCallTypeArgs_congr {s s' : TokenStream} (hrest : s.rest = s'.rest) :
    s.nextTokensAreCallTypeArgs = s'.nextTokensAreCallTypeArgs := by
  unfold TokenStream.nextTokensAreCallTypeArgs TokenStream.peek
  rw [hrest]
  cases s'.rest with
  | nil => simp [s.eof_kind, s'.eof_kind]
  | cons token rest => rfl

theorem ScansAlike.eq {step : Program.Step ParseInstr ParseInstr.Answer Parser} {s' : Parser}
    (hscans : ScansAlike tail tail' step) (hcall : step.instruction = .callTypeArgs)
    (halike : Parser.Alike tail tail' step.before s') :
    step.before.stream.nextTokensAreCallTypeArgs = s'.stream.nextTokensAreCallTypeArgs := by
  obtain ⟨front, hs, hs'⟩ := halike.types.stream
  rw [hscans hcall front hs]
  exact nextTokensAreCallTypeArgs_congr hs'.symm

theorem ParseInstr.ahead_of_handle (types : ℕ) (i : ParseInstr) (s : Parser) (r : i.Answer) (t : Parser)
    (hhandle : i.handle types s = .ok (r, t)) (hahead : Ahead tail t.stream) : Ahead tail s.stream :=
  hahead.trans (ParseInstr.suffix types i s r t hhandle)

variable (hhead : tail.head? = tail'.head?) (h : Separates tail)
  (h' : Separates tail')

include hhead h h'

theorem TypeInstr.handle_alike {i : TypeInstr} {s t s' : TypeState} {r : i.Answer}
    (hhandle : i.handle s = .ok (r, t)) (hahead : Ahead tail t.stream)
    (halike : TypeState.Alike tail tail' s s') :
    ∃ t', i.handle s' = .ok (r, t') ∧ TypeState.Alike tail tail' t t' := by
  obtain ⟨front, hs, hs'⟩ := halike.stream
  have hpending := halike.pendingTypeGt
  cases i with
  | stop reason => cases hhandle
  | peek =>
    cases hhandle
    refine ⟨s', ?_, halike⟩
    rw [handle, peek_eq_peekN, peek_eq_peekN, peekN_eq hhead h hs hs' (Nat.zero_le _)]
  | advance =>
    cases hhandle
    exact ⟨_, rfl, advance_sameFront h hs hs' hahead, hpending⟩
  | consumeNewline =>
    cases hhandle
    exact ⟨_, rfl, consumeNewline_sameFront h hs hs' hahead, hpending⟩
  | ask question =>
    cases hhandle
    refine ⟨s', ?_, halike⟩
    rw [handle, answer_eq hhead h h' hs hs']
  | takePendingGt =>
    simp only [handle, hpending] at hhandle
    split_ifs at hhandle with hpos
    · cases hhandle
      exact ⟨_, if_pos hpos, halike.stream, rfl⟩
    · cases hhandle
      exact ⟨_, if_neg hpos, halike⟩
  | leavePendingGt =>
    cases hhandle
    exact ⟨_, rfl, halike.stream, congrArg (· + 1) hpending⟩

theorem Parser.runTypes_alike {α : Type} {p : TypeParse α} {s t s' : Parser} {a : α}
    (hrun : s.runTypes p = .ok (a, t)) (hahead : Ahead tail t.stream)
    (halike : Parser.Alike tail tail' s s') :
    ∃ t', s'.runTypes p = .ok (a, t') ∧ Parser.Alike tail tail' t t' := by
  obtain ⟨hrun, hallow, hself⟩ := Parser.runTypes_eq_ok.1 hrun
  obtain ⟨u', hrun', halike'⟩ := Program.run_related (TypeState.Alike tail tail')
    (fun s => Ahead tail s.stream) (fun _ => True)
    (fun i s r t hhandle hahead => hahead.trans (TypeInstr.suffix i s r t hhandle))
    (fun i s r t s' hhandle _ hahead => TypeInstr.handle_alike hhead h h' hhandle hahead)
    hrun (fun _ _ => trivial) hahead halike.types
  refine ⟨{ s' with stream := u'.stream, pendingTypeGt := u'.pendingTypeGt }, ?_, halike', ?_, ?_⟩
  · exact Parser.runTypes_eq_ok.2 ⟨hrun', rfl, rfl⟩
  · rw [hallow, halike.allowStructLiterals]
  · rw [hself, halike.implSelfType]

/-- **An instruction of the parser**, where the scan has the same answer. -/
theorem ParseInstr.handle_alike {types : ℕ} {i : ParseInstr} {s t s' : Parser} {r : i.Answer}
    (hhandle : i.handle types s = .ok (r, t)) (hscans : ScansAlike tail tail' ⟨i, s, r, t⟩)
    (hahead : Ahead tail t.stream) (halike : Parser.Alike tail tail' s s') :
    ∃ t', i.handle types s' = .ok (r, t') ∧ Parser.Alike tail tail' t t' := by
  obtain ⟨front, hs, hs'⟩ : SameFront tail tail' s.stream s'.stream := halike.types.stream
  cases i with
  | stop reason => cases hhandle
  | peek =>
    cases hhandle
    refine ⟨s', ?_, halike⟩
    rw [handle, peek_eq_peekN, peek_eq_peekN, peekN_eq hhead h hs hs' (Nat.zero_le _)]
  | advance =>
    cases hhandle
    exact ⟨_, rfl, ⟨advance_sameFront h hs hs' hahead, halike.types.pendingTypeGt⟩, halike.2, halike.3⟩
  | consumeNewline =>
    cases hhandle
    exact ⟨_, rfl, ⟨consumeNewline_sameFront h hs hs' hahead, halike.types.pendingTypeGt⟩, halike.2,
      halike.3⟩
  | ask question =>
    cases hhandle
    refine ⟨s', ?_, halike⟩
    rw [handle, answer_eq hhead h h' hs hs']
  | call function => exact Parser.runTypes_alike hhead h h' hhandle hahead halike
  | callTypeArgs =>
    have hscan := hscans.eq rfl halike
    simp only [handle] at hhandle ⊢
    rw [← hscan]
    split_ifs at hhandle with hasks
    · rw [if_pos hasks]
      exact Parser.runTypes_alike hhead h h' hhandle hahead halike
    · cases hhandle
      exact ⟨s', if_neg hasks, halike⟩
  | allowStructLiterals =>
    cases hhandle
    refine ⟨s', ?_, halike⟩
    rw [handle, halike.allowStructLiterals]
  | setAllowStructLiterals value =>
    cases hhandle
    exact ⟨_, rfl, halike.1, rfl, halike.3⟩
  | implSelfType =>
    cases hhandle
    refine ⟨s', ?_, halike⟩
    rw [handle, halike.implSelfType]
  | setImplSelfType value =>
    cases hhandle
    exact ⟨_, rfl, halike.1, halike.2, rfl⟩

/-- **A program of the parser** goes on alike behind the two, if all its scans have the same answer. -/
theorem run_alike {types : ℕ} {α : Type} {p : Parse α} {s t s' : Parser} {a : α}
    (hrun : p.run (ParseInstr.handle types) s = .ok (a, t))
    (hscans : ∀ step ∈ p.steps (ParseInstr.handle types) s, ScansAlike tail tail' step)
    (hahead : Ahead tail t.stream) (halike : Parser.Alike tail tail' s s') :
    ∃ t', p.run (ParseInstr.handle types) s' = .ok (a, t') ∧ Parser.Alike tail tail' t t' :=
  Program.run_related (Parser.Alike tail tail') (fun s => Ahead tail s.stream) (ScansAlike tail tail')
    (ParseInstr.ahead_of_handle types)
    (fun _ _ _ _ _ hhandle => ParseInstr.handle_alike hhead h h' hhandle) hrun hscans hahead halike

end Runs

/-! ## What a scan decides -/

theorem parseTypeArgs_ne_nil {rounds : ℕ} {parseTypeRef : TypeParse TypeRef} {s t : TypeState}
    {args : List TypeRef} (hless : s.stream.peek.kind = .less)
    (hrun : (parseTypeArgs rounds parseTypeRef).run TypeInstr.handle s = .ok (args, t)) : args ≠ [] := by
  have hround (args : List TypeRef) : Program.Returns TypeInstr.handle (typeArgRound parseTypeRef args)
      fun r => ∀ result, r = .inr result → result ≠ [] := by
    refine .bind fun arg => .bind fun pending => ?_
    split_ifs
    · exact .pure fun result hresult => by simp [← Sum.inr.inj hresult]
    refine .bind fun _ => .bind fun token => ?_
    split
    · exact .bind fun _ => .bind fun _ => .pure nofun
    · exact .bind fun _ => .pure fun result hresult => by simp [← Sum.inr.inj hresult]
    · exact .bind fun _ => .bind fun _ => .pure fun result hresult => by simp [← Sum.inr.inj hresult]
    · exact .bind fun _ => nofun
  obtain ⟨token, u, hpeek, hrun⟩ := Program.run_bind_eq_ok.1 hrun
  cases hpeek
  rw [if_pos hless] at hrun
  obtain ⟨_, _, -, hrun⟩ := Program.run_bind_eq_ok.1 hrun
  obtain ⟨_, _, -, hrun⟩ := Program.run_bind_eq_ok.1 hrun
  exact Program.Returns.loop nofun hround rounds [] _ _ _ hrun

theorem answer_ne_nil {types : ℕ} {s t : Parser} {typeArgs : List TypeRef}
    (hscan : s.stream.nextTokensAreCallTypeArgs = true)
    (hhandle : ParseInstr.callTypeArgs.handle types s = .ok (typeArgs, t)) : typeArgs ≠ [] := by
  rw [ParseInstr.handle, if_pos hscan] at hhandle
  have hless : s.stream.peek.kind = .less := by
    rw [TokenStream.nextTokensAreCallTypeArgs] at hscan
    split_ifs at hscan with hless
    exact hless
  exact parseTypeArgs_ne_nil hless (Parser.runTypes_eq_ok.1 hhandle).1

theorem answer_eq_nil {types : ℕ} {s t : Parser} {typeArgs : List TypeRef}
    (hscan : s.stream.nextTokensAreCallTypeArgs = false)
    (hhandle : ParseInstr.callTypeArgs.handle types s = .ok (typeArgs, t)) : typeArgs = [] := by
  rw [ParseInstr.handle, if_neg (by simp [hscan])] at hhandle
  exact (Prod.mk.inj (Except.ok.inj hhandle)).1.symm

theorem asked_of_scans_differ {types : ℕ} {tail tail' : List Token} {i : ParseInstr} {s t s' t' : Parser}
    {r r' : i.Answer} (hhandle : i.handle types s = .ok (r, t)) (hhandle' : i.handle types s' = .ok (r', t'))
    (hscans : ¬ScansAlike tail tail' ⟨i, s, r, t⟩) (halike : Parser.Alike tail tail' s s')
    (more more' : List (List TypeRef)) :
    askedBy ⟨i, s, r, t⟩ ++ more ≠ askedBy ⟨i, s', r', t'⟩ ++ more' := by
  obtain ⟨front, hs, hs'⟩ : SameFront tail tail' s.stream s'.stream := halike.types.stream
  simp only [ScansAlike, not_forall] at hscans
  obtain ⟨rfl, front', hfront, hdiffer⟩ := hscans
  obtain rfl := List.append_cancel_right (hs.symm.trans hfront)
  have hdiffer : s.stream.nextTokensAreCallTypeArgs ≠ s'.stream.nextTokensAreCallTypeArgs :=
    fun hsame => hdiffer (hsame.trans (nextTokensAreCallTypeArgs_congr hs'))
  have hne : r ≠ r' := by
    cases hscan : s.stream.nextTokensAreCallTypeArgs with
    | true =>
      rw [answer_eq_nil (by simpa [hscan] using hdiffer) hhandle']
      exact answer_ne_nil hscan hhandle
    | false =>
      rw [answer_eq_nil hscan hhandle]
      exact (answer_ne_nil (by simpa [hscan] using hdiffer) hhandle').symm
  exact fun heq => hne (List.cons.inj heq).1

theorem asked_of_noted {steps : List (Program.Step ParseInstr ParseInstr.Answer Parser)} {g g' : Noted}
    (h : steps.foldlM Noted.step g = some g') : g'.asked = g.asked ++ steps.flatMap askedBy := by
  induction steps generalizing g with
  | nil =>
    cases h
    simp
  | cons step steps ih =>
    rw [List.foldlM_cons] at h
    obtain ⟨g'', hstep, hsteps⟩ := Option.bind_eq_some_iff.1 h
    obtain ⟨w, -, rfl⟩ := Option.map_eq_some_iff.1 hstep
    rw [ih hsteps, List.flatMap_cons, List.append_assoc]

theorem asked_of_parses {types depth : ℕ} {s t : Parser} {stmt : Stmt}
    (h : (recursive depth).parseStmt.run (ParseInstr.handle types) s = .ok (stmt, t)) :
    ((recursive depth).parseStmt.steps (ParseInstr.handle types) s).flatMap askedBy = stmt.asked := by
  obtain ⟨g, hsteps, entries, rfl, -⟩ :=
    (recursive_reads types depth).parseStmt s 0 ⟨[], 0⟩ [] stmt t h
  simpa [noted] using (asked_of_noted hsteps).symm

/-! ## A statement before the end of its block and before further statements -/

/-- A statement is read, with its tokens and no others. -/
def ParsesTo (types depth : ℕ) (s : Parser) (stmt : Stmt) (left : List Token) : Prop :=
  ∃ t, (recursive depth).parseStmt.run (ParseInstr.handle types) s = .ok (stmt, t) ∧ t.stream.rest = left

section

variable (types depth : ℕ) (s : Parser) (statement closing more : List Token) {newline : Token} {stmt : Stmt}

/-- **A statement that is complete before the end of its block** is the first of more statements, with
the same tree, if and only if every scan for type arguments in it has the same answer before them as
before the end of the block. -/
theorem parsesAlike_iff (hnewline : newline.kind = .newline) (hclosing : EndsBlock closing)
    (hmore : GoesOn more)
    (hparses : ParsesTo types depth (s.ahead (statement ++ newline :: closing)) stmt (newline :: closing)) :
    ParsesTo types depth (s.ahead (statement ++ newline :: more)) stmt (newline :: more) ↔
      ∀ step ∈ (recursive depth).parseStmt.steps (ParseInstr.handle types)
          (s.ahead (statement ++ newline :: closing)),
        ScansAlike (newline :: closing) (newline :: more) step := by
  obtain ⟨t, hrun, hleft⟩ := hparses
  have hhead : (newline :: closing).head? = (newline :: more).head? := rfl
  have hseparates := hclosing.separates hnewline
  have hseparates' := hmore.separates hnewline
  have halike : Parser.Alike (newline :: closing) (newline :: more)
      (s.ahead (statement ++ newline :: closing)) (s.ahead (statement ++ newline :: more)) :=
    ⟨⟨⟨statement, rfl, rfl⟩, rfl⟩, rfl, rfl⟩
  have hahead : Ahead (newline :: closing) t.stream := hleft ▸ List.suffix_rfl
  constructor
  · rintro ⟨t', hrun', -⟩
    refine Program.meets_of_observed (Parser.Alike (newline :: closing) (newline :: more))
      (fun s => Ahead (newline :: closing) s.stream) (ParseInstr.ahead_of_handle types)
      (fun i s r t s' hhandle hscans hahead halike => ?_)
      (fun i s r t s' r' t' hhandle hhandle' hscans _ halike =>
        asked_of_scans_differ hhandle hhandle' hscans halike) hrun hrun' hahead halike
      ((asked_of_parses hrun).trans (asked_of_parses hrun').symm)
    obtain ⟨t', hhandle', halike'⟩ :=
      ParseInstr.handle_alike hhead hseparates hseparates' hhandle hscans hahead halike
    refine ⟨t', hhandle', halike', ?_⟩
    cases i <;> rfl
  · intro hscans
    obtain ⟨t', hrun', halike'⟩ :=
      run_alike hhead hseparates hseparates' hrun hscans hahead halike
    obtain ⟨front, hfront, hfront'⟩ : SameFront _ _ t.stream t'.stream := halike'.types.stream
    obtain rfl : front = [] := by simpa [hleft] using hfront
    exact ⟨t', hrun', hfront'⟩

end

/-! ## A comparison and a statement behind it -/

/-- `let c = a < b`. -/
def comparison : List Token :=
  lineTokens 2 "    let c = a < b"
    [(5, .kwLet), (9, .ident "c"), (11, .equal), (13, .ident "a"), (15, .less), (17, .ident "b")]

/-- The newline behind the comparison. -/
def newlineBehind : Token := ⟨.newline, 2, 18, "    let c = a < b"⟩

/-- The end of the block. -/
def closingBehind : List Token := lineTokens 3 "\x7d" [(1, .rBrace), (2, .newline)]

/-- The statement `let d = e`, and the end of the block. -/
def plainBehind : List Token :=
  lineTokens 3 "    let d = e"
    [(5, .kwLet), (9, .ident "d"), (11, .equal), (13, .ident "e"), (14, .newline)] ++
  lineTokens 4 "\x7d" [(1, .rBrace), (2, .newline)]

/-- The statement `let d = e > (f)`, and the end of the block. -/
def comparisonBehind : List Token :=
  lineTokens 3 "    let d = e > (f)"
    [(5, .kwLet), (9, .ident "d"), (11, .equal), (13, .ident "e"), (15, .greater), (17, .lParen),
      (18, .ident "f"), (19, .rParen), (20, .newline)] ++
  lineTokens 4 "\x7d" [(1, .rBrace), (2, .newline)]

theorem end_kind : (⟨.eof, 5, 1, ""⟩ : Token).kind = .eof := rfl

/-- The parser at the start of a statement. -/
def atStatement : Parser where
  stream := ⟨[], ⟨.eof, 5, 1, ""⟩, end_kind⟩
  allowStructLiterals := true
  implSelfType := none
  pendingTypeGt := 0

/-- The tree of the comparison. -/
def comparisonTree : Stmt :=
  .letVar "c" false none (.binary (.name ["a"]) .less (.name ["b"])) ⟨2, 5, 1, "    let c = a < b"⟩

theorem comparison_parses :
    ParsesTo 4 4 (atStatement.ahead (comparison ++ newlineBehind :: closingBehind)) comparisonTree
      (newlineBehind :: closingBehind) :=
  ⟨_, rfl, rfl⟩

/-- Before `let d = e`, the comparison is the statement and every scan has the same answer. -/
theorem comparison_scansAlike :
    ParsesTo 4 4 (atStatement.ahead (comparison ++ newlineBehind :: plainBehind)) comparisonTree
      (newlineBehind :: plainBehind) ∧
    ∀ step ∈ (recursive 4).parseStmt.steps (ParseInstr.handle 4)
        (atStatement.ahead (comparison ++ newlineBehind :: closingBehind)),
      ScansAlike (newlineBehind :: closingBehind) (newlineBehind :: plainBehind) step :=
  have hparses := ⟨_, rfl, rfl⟩
  ⟨hparses, (parsesAlike_iff 4 4 atStatement comparison closingBehind plainBehind rfl ⟨_, rfl, rfl⟩
    ⟨_, rfl, rfl⟩ comparison_parses).1 hparses⟩

/-- Before `let d = e > (f)`, which is a statement, the comparison is no statement. -/
theorem not_parsesAlike_comparison :
    ¬∀ (types depth : ℕ) (s : Parser) (statement closing more : List Token) (newline : Token) (stmt : Stmt),
      newline.kind = .newline → EndsBlock closing → GoesOn more →
        (∃ second left, ParsesTo types depth (s.ahead more) second left) →
        ParsesTo types depth (s.ahead (statement ++ newline :: closing)) stmt (newline :: closing) →
        ParsesTo types depth (s.ahead (statement ++ newline :: more)) stmt (newline :: more) := by
  intro hlocal
  obtain ⟨t, hrun, -⟩ := hlocal 4 4 atStatement comparison closingBehind comparisonBehind newlineBehind
    comparisonTree rfl ⟨_, rfl, rfl⟩ ⟨_, rfl, rfl⟩ ⟨_, _, _, rfl, rfl⟩ comparison_parses
  have herror : ∃ reason, (recursive 4).parseStmt.run (ParseInstr.handle 4)
      (atStatement.ahead (comparison ++ newlineBehind :: comparisonBehind)) = .error reason := ⟨_, rfl⟩
  obtain ⟨reason, herror⟩ := herror
  cases hrun.symm.trans herror

end Nomo.Syntax
