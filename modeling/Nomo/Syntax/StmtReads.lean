import Nomo.Syntax.ExprReads

/-!
# What is read with a statement

Each function of `Stmt` closes the brackets that it opens, and its result has the type arguments that it
has asked for (`recursive_reads`, to every depth).
-/

namespace Nomo.Syntax

open Nomo.Lib Outside Parse

variable {types : ℕ} {r : Recursive} (hr : AllRead types r)
include hr

/-! ## Blocks -/

theorem parseStmtBlock_reads (openCode openMessage : String) :
    Reads types (parseStmtBlock r openCode openMessage) Stmt.askedAll := by
  intro s depth entries asked
  refine Leads.expectOpening rfl fun s => Leads.skipNewlines fun s => ?_
  refine Leads.loopNew Stmt.askedAll _ rfl (Nat.le_succ depth) (fun body s entries => ?_) r.rounds
  refine Leads.skipNewlines fun s => Leads.peek ?_
  split
  · rename_i hkind
    exact Leads.advanceClosing hkind rfl fun s => Leads.finish rfl
  · exact Leads.error
  · refine Leads.readsRound (Nat.le_succ depth) hr.parseStmt fun stmt s entries => ?_
    exact Leads.quiet (expectNewline_quiet _) fun _ s => Leads.goOn (by simp [Stmt.askedAll_eq])

/-! ## Assignments -/

variable (token : Token)

theorem parseIndexAssignStmt_reads :
    Reads types (parseIndexAssignStmt r token) Stmt.asked := by
  intro s depth entries asked
  refine Leads.quiet path_quiet fun target s => ?_
  split
  · have hindices : Reads types (loop (indexRound r) r.rounds []) fun indices => indices.flatMap Expr.asked := by
      intro s depth entries asked
      refine Leads.loopNew (fun indices => indices.flatMap Expr.asked) _ rfl le_rfl
        (fun indices s entries => ?_) r.rounds
      refine Leads.takeOpening rfl (fun s => Leads.skipNewlines fun s => ?_) (Leads.finish rfl)
      refine Leads.inside hr.parseExpr fun index s => Leads.skipNewlines fun s => ?_
      exact Leads.expectClosing rfl fun s => Leads.goOn (by simp)
    refine Leads.reads hindices fun indices s entries => Leads.expectPlain rfl fun s => ?_
    refine Leads.reads hr.parseExpr fun value s entries => Leads.done ?_
    simp [Stmt.asked, Expr.askedAll_eq]
  · exact Leads.error

omit hr in
theorem isPlain_of_assignOp {kind : TokenKind} {op : AssignOp} (h : assignOpFromToken kind = some op) :
    isPlain kind = true := by
  revert h
  cases kind with
  | _ => simp [assignOpFromToken, isPlain]

omit hr in
theorem isPlain_of_postfixOp {kind : TokenKind} {op : PostfixOp} (h : postfixOpFromToken kind = some op) :
    isPlain kind = true := by
  revert h
  cases kind with
  | _ => simp [postfixOpFromToken, isPlain]

theorem parseAssignStmt_reads : Reads types (parseAssignStmt r token) Stmt.asked := by
  intro s depth entries asked
  refine Leads.quiet path_quiet fun target s => ?_
  split_ifs
  · exact Leads.error
  refine Leads.peek ?_
  split
  · rename_i op hop
    refine Leads.advancePlain rfl (isPlain_of_assignOp hop) fun s => ?_
    exact Leads.reads hr.parseExpr fun value s entries => Leads.done (by simp [Stmt.asked])
  · exact Leads.error

omit hr in
theorem parsePostfixStmt_reads : Reads types (parsePostfixStmt token) Stmt.asked := by
  intro s depth entries asked
  refine Leads.quiet path_quiet fun target s => ?_
  split_ifs
  · exact Leads.error
  refine Leads.peek ?_
  split
  · rename_i op hop
    exact Leads.advancePlain rfl (isPlain_of_postfixOp hop) fun s => Leads.done (by simp [Stmt.asked])
  · exact Leads.error

/-! ## Bindings -/

omit hr in
theorem typeAnnotation_reads : Reads types typeAnnotation fun _ => [] := by
  intro s depth entries asked
  refine Leads.takePlain rfl fun yes s => ?_
  split_ifs
  · exact Leads.reads typeRef_reads fun annotation s entries => Leads.done (by simp)
  · exact Leads.done (by simp)

theorem finishLetElse_reads (nameToken : Token) (pattern : List String) :
    Reads types (finishLetElse r token nameToken pattern) Stmt.asked := by
  intro s depth entries asked
  refine Leads.reads parseMatchBinding_reads fun binding s entries => ?_
  split
  · refine Leads.expectPlain rfl fun s => Leads.reads hr.parseExpr fun value s entries => ?_
    refine Leads.expectPlain rfl fun s => ?_
    exact Leads.reads (parseStmtBlock_reads hr _ _) fun elseBody s entries =>
      Leads.done (by simp [Stmt.asked])
  · exact Leads.errorAt

theorem finishLet_reads (nameToken : Token) (mutable : Bool) (names : List String) :
    Reads types (finishLet r token nameToken mutable names) Stmt.asked := by
  intro s depth entries asked
  unfold finishLet
  split
  · refine Leads.reads typeAnnotation_reads fun annotation s entries => ?_
    refine Leads.expectPlain rfl fun s => ?_
    exact Leads.reads hr.parseExpr fun value s entries => Leads.done (by simp [Stmt.asked])
  · exact Leads.errorAt

theorem parseLetStmt_reads : Reads types (parseLetStmt r token) Stmt.asked := by
  intro s depth entries asked
  refine Leads.expectPlain rfl fun s => Leads.takePlain rfl fun mutable s => Leads.peek ?_
  refine Leads.quiet path_quiet fun names s => Leads.nextIs ?_
  split_ifs
  · exact finishLetElse_reads hr token _ names s depth entries asked
  · exact finishLet_reads hr token _ mutable names s depth entries asked

theorem ifLetElse_reads : Reads types (ifLetElse r) fun body => body.elim [] Stmt.askedAll := by
  intro s depth entries asked
  refine Leads.takePlain rfl fun yes s => ?_
  split_ifs
  · exact Leads.reads (parseStmtBlock_reads hr _ _) fun elseBody s entries => Leads.done rfl
  · exact Leads.done (by simp)

theorem parseIfLetStmt_reads : Reads types (parseIfLetStmt r token) Stmt.asked := by
  intro s depth entries asked
  refine Leads.expectPlain rfl fun s => Leads.expectPlain rfl fun s => ?_
  refine Leads.quiet parseMatchPattern_quiet fun pattern s => ?_
  refine Leads.reads parseMatchBinding_reads fun binding s entries => Leads.expectPlain rfl fun s => ?_
  refine Leads.reads (parseExprNoStructLiterals_reads hr) fun value s entries => ?_
  refine Leads.reads (parseStmtBlock_reads hr _ _) fun body s entries => ?_
  refine Leads.reads (ifLetElse_reads hr) fun elseBody s entries => Leads.done ?_
  cases elseBody <;> simp [Stmt.asked]

/-! ## Control flow -/

theorem returnValue_reads : Reads types (returnValue r) fun value => value.elim [] Expr.asked := by
  intro s depth entries asked
  refine Leads.peek ?_
  split
  iterate 3 exact Leads.done (by simp)
  exact Leads.reads hr.parseExpr fun value s entries => Leads.done rfl

theorem parseReturnStmt_reads : Reads types (parseReturnStmt r token) Stmt.asked := by
  intro s depth entries asked
  refine Leads.expectPlain rfl fun s => Leads.reads (returnValue_reads hr) fun value s entries => ?_
  exact Leads.done (by cases value <;> simp [Stmt.asked])

theorem forVariant_reads : Reads types (forVariant r) ForVariant.asked := by
  intro s depth entries asked
  refine Leads.nextIs ?_
  split_ifs
  · exact Leads.reads (parseStmtBlock_reads hr _ _) fun body s entries =>
      Leads.done (by simp [ForVariant.asked])
  refine Leads.ask fun yes => ?_
  split_ifs
  · refine Leads.quiet (expectIdent_quiet _) fun binding s => Leads.expectPlain rfl fun s => ?_
    refine Leads.reads (parseExprNoStructLiterals_reads hr) fun iterable s entries => ?_
    exact Leads.reads (parseStmtBlock_reads hr _ _) fun body s entries =>
      Leads.done (by simp [ForVariant.asked])
  refine Leads.takePlain rfl fun yes s => ?_
  split_ifs
  · refine Leads.takePlain rfl fun _ s => Leads.quiet (expectIdent_quiet _) fun binding s => ?_
    refine Leads.reads typeAnnotation_reads fun annotation s entries => Leads.expectPlain rfl fun s => ?_
    refine Leads.reads hr.parseExpr fun initializer s entries => Leads.expectPlain rfl fun s => ?_
    refine Leads.reads (parseExprNoStructLiterals_reads hr) fun condition s entries => ?_
    refine Leads.expectPlain rfl fun s => Leads.reads hr.parseStmt fun update s entries => ?_
    split_ifs
    · exact Leads.reads (parseStmtBlock_reads hr _ _) fun body s entries =>
        Leads.done (by simp [ForVariant.asked])
    · exact Leads.error
  · refine Leads.reads (parseExprNoStructLiterals_reads hr) fun condition s entries => ?_
    exact Leads.reads (parseStmtBlock_reads hr _ _) fun body s entries =>
      Leads.done (by simp [ForVariant.asked])

theorem parseForStmt_reads : Reads types (parseForStmt r token) Stmt.asked := by
  intro s depth entries asked
  refine Leads.expectPlain rfl fun s => Leads.reads (forVariant_reads hr) fun variant s entries => ?_
  exact Leads.done (by simp [Stmt.asked])

theorem parseMatchStmt_reads : Reads types (parseMatchStmt r token) Stmt.asked := by
  intro s depth entries asked
  refine Leads.reads (parseMatchArms_reads hr (parseStmtBlock_reads hr _ _)) fun result s entries => ?_
  exact Leads.done (by simp [Stmt.asked, Stmt.askedArms_eq])

theorem parseDeferStmt_reads : Reads types (parseDeferStmt r token) Stmt.asked := by
  intro s depth entries asked
  refine Leads.expectPlain rfl fun s => ?_
  exact Leads.reads hr.parseStmt fun stmt s entries => Leads.done (by simp [Stmt.asked])

theorem parseUnsafeStmt_reads : Reads types (parseUnsafeStmt r token) Stmt.asked := by
  intro s depth entries asked
  refine Leads.expectPlain rfl fun s => ?_
  refine Leads.reads (parseStmtBlock_reads hr _ _) fun body s entries => ?_
  split_ifs
  · exact Leads.done (by simp [Stmt.asked])
  · exact Leads.errorAt

/-! ## Tasks -/

theorem parseTaskScopeStmt_reads :
    Reads types (parseTaskScopeStmt r token) Stmt.asked := by
  intro s depth entries asked
  refine Leads.quiet (expectIdent_quiet _) fun _ s => Leads.expectPlain rfl fun s => ?_
  refine Leads.quiet (expectIdent_quiet _) fun _ s => ?_
  exact Leads.reads (parseStmtBlock_reads hr _ _) fun body s entries => Leads.done (by simp [Stmt.asked])

theorem parseTaskDeadlineStmt_reads :
    Reads types (parseTaskDeadlineStmt r token) Stmt.asked := by
  intro s depth entries asked
  refine Leads.quiet (expectIdent_quiet _) fun _ s => Leads.expectPlain rfl fun s => ?_
  refine Leads.quiet (expectIdent_quiet _) fun _ s => Leads.expectOpening rfl fun s => ?_
  refine Leads.inside hr.parseExpr fun duration s => Leads.expectClosing rfl fun s => ?_
  exact Leads.reads (parseStmtBlock_reads hr _ _) fun body s entries => Leads.done (by simp [Stmt.asked])

theorem parseTaskSelectStmt_reads :
    Reads types (parseTaskSelectStmt r token) Stmt.asked := by
  intro s depth entries asked
  refine Leads.quiet (expectIdent_quiet _) fun _ s => Leads.expectPlain rfl fun s => ?_
  refine Leads.quiet (expectIdent_quiet _) fun _ s => Leads.expectOpening rfl fun s => ?_
  refine Program.Leads.bind ((Leads.loopNew Stmt.askedSelect Stmt.askedSelect rfl
    (Nat.le_succ depth) (fun arms s entries => ?_) r.rounds).mono fun arms s g hends => ?_)
  · refine Leads.skipNewlines fun s => Leads.peek ?_
    split
    · rename_i hkind
      exact Leads.advanceClosing hkind rfl fun s => Leads.finish rfl
    · exact Leads.error
    refine Leads.readsRound (Nat.le_succ depth) hr.parseExpr fun operation s entries => ?_
    refine Leads.expectPlain rfl fun s => Leads.quiet (expectIdent_quiet _) fun binding s => ?_
    refine Leads.skipNewlines fun s => ?_
    refine Leads.readsRound (Nat.le_succ depth) (parseStmtBlock_reads hr _ _) fun body s entries => ?_
    exact Leads.quiet (expectNewline_quiet _) fun _ s => Leads.goOn (by simp [Stmt.askedSelect_eq])
  · obtain ⟨entries', rfl, hgrown⟩ := hends
    split_ifs
    · exact Program.Leads.pure ⟨entries', by simp [Stmt.asked], hgrown⟩
    · exact Leads.errorAt

/-! ## Statements -/

theorem keywordStmt_reads {token : Token} {stmt : Parse Stmt} (h : keywordStmt r token = some stmt)
    {s : Parser} (htoken : s.stream.peek = token) (depth : ℕ) (entries : Entries)
    (asked : List (List TypeRef)) :
    Leads types stmt s (noted depth entries asked) (Ends depth entries asked Stmt.asked) := by
  unfold keywordStmt at h
  split at h
  · exact Option.some.inj h ▸ parseReturnStmt_reads hr token s depth entries asked
  · exact Option.some.inj h ▸ parseForStmt_reads hr token s depth entries asked
  · exact Option.some.inj h ▸ parseMatchStmt_reads hr token s depth entries asked
  · rename_i hkind
    rw [← htoken] at hkind
    rw [← Option.some.inj h]
    exact Leads.advancePlain hkind rfl fun s => Leads.done (by simp [Stmt.asked])
  · rename_i hkind
    rw [← htoken] at hkind
    rw [← Option.some.inj h]
    exact Leads.advancePlain hkind rfl fun s => Leads.done (by simp [Stmt.asked])
  · exact Option.some.inj h ▸ parseDeferStmt_reads hr token s depth entries asked
  · exact Option.some.inj h ▸ parseUnsafeStmt_reads hr token s depth entries asked
  · cases h

theorem plainStmt_reads : Reads types (plainStmt r token) Stmt.asked := by
  intro s depth entries asked
  refine Leads.askIf (parseIndexAssignStmt_reads hr token s depth entries asked) ?_
  refine Leads.askIf (parseAssignStmt_reads hr token s depth entries asked) ?_
  refine Leads.askIf (parsePostfixStmt_reads token s depth entries asked) ?_
  exact Leads.reads hr.parseExpr fun expr s entries => Leads.done (by simp [Stmt.asked])

theorem parseStmt_reads : Reads types (parseStmt r) Stmt.asked := by
  intro s depth entries asked
  refine Leads.peek ?_
  refine Leads.askIf (parseTaskSelectStmt_reads hr _ s depth entries asked) ?_
  refine Leads.askIf (parseTaskScopeStmt_reads hr _ s depth entries asked) ?_
  refine Leads.askIf (parseTaskDeadlineStmt_reads hr _ s depth entries asked) ?_
  split_ifs
  · exact parseLetStmt_reads hr _ s depth entries asked
  refine Leads.askIf (parseIfLetStmt_reads hr _ s depth entries asked) ?_
  split
  · rename_i stmt hstmt
    exact keywordStmt_reads hr hstmt rfl depth entries asked
  · exact plainStmt_reads hr _ s depth entries asked

omit hr in
/-- **Expressions and statements**, to every depth, close the brackets that they open, and have the type
arguments that they have asked for. -/
theorem recursive_reads (types depth : ℕ) : AllRead types (recursive depth) := by
  induction depth with
  | zero =>
    constructor
    all_goals exact fun _ _ _ _ => Leads.stop
  | succ depth ih =>
    exact ⟨parseLogicalOrExpr_reads ih, parseUnaryExpr_reads ih, parseNameOrCall_reads ih,
      parseStmt_reads ih⟩

end Nomo.Syntax
