import Nomo.Syntax.Ast
import Nomo.Syntax.Reader
import Nomo.Syntax.Stmt

/-!
# What is read with an expression

Each function of `Expr` closes the brackets that it opens, and its result has the type arguments that it
has asked for.
-/

namespace Nomo.Syntax

open Nomo.Lib Outside Parse

/-- What is read with the parsers that call each other. -/
structure AllRead (types : ℕ) (r : Recursive) : Prop where
  parseExpr : Reads types r.parseExpr Expr.asked
  parseUnaryExpr : Reads types r.parseUnaryExpr Expr.asked
  parseNameOrCall : Reads types r.parseNameOrCall Expr.asked
  parseStmt : Reads types r.parseStmt Stmt.asked

variable {types : ℕ} {r : Recursive}

/-! ## Operators -/

theorem skipNewlinesIf_quiet (skips : Bool) : Quiet types (skipNewlinesIf skips) := by
  cases skips with
  | false => exact fun _ _ _ _ => Program.Leads.pure rfl
  | true => exact skipNewlines_quiet

theorem parseBinary_reads {binaryOp : TokenKind → Option BinaryOp} {skips : Bool} {operand : Parse Expr}
    (hplain : ∀ kind, binaryOp kind ≠ none → isPlain kind = true)
    (hoperand : Reads types operand Expr.asked) :
    Reads types (parseBinary r binaryOp skips operand) Expr.asked := by
  intro s depth entries asked
  refine Leads.reads hoperand fun left s entries => ?_
  refine Leads.loop _ le_rfl (fun left s entries => ?_) r.rounds left
  refine Leads.peek ?_
  split
  · rename_i op hop
    refine Leads.advancePlain rfl (hplain _ (by simp [hop])) fun s => ?_
    refine Leads.quiet (skipNewlinesIf_quiet skips) fun _ s => ?_
    exact Leads.readsRound le_rfl hoperand fun right s entries => Leads.goOn (by simp [Expr.asked])
  · exact Leads.finish rfl

section

variable (hr : AllRead types r)
include hr

theorem parseExprNoStructLiterals_reads : Reads types (parseExprNoStructLiterals r) Expr.asked := by
  intro s depth entries asked
  refine Leads.quiet allowStructLiterals_quiet fun previous s => ?_
  refine Leads.quiet (setAllowStructLiterals_quiet false) fun _ s => ?_
  refine Leads.reads hr.parseExpr fun expr s entries => ?_
  exact Leads.quiet (setAllowStructLiterals_quiet previous) fun _ s => Leads.done rfl

/-! ## Patterns -/

omit hr in
theorem parseMatchBinding_reads : Reads types parseMatchBinding fun _ => [] := by
  intro s depth entries asked
  refine Leads.takeOpening rfl (fun s => ?_) (Leads.done (by simp))
  refine Leads.peek (Leads.quiet (expectIdent_quiet _) fun binding s => ?_)
  split_ifs
  · exact Leads.errorAt
  · exact Leads.expectClosing rfl fun s => Leads.done (by simp)

omit hr in
theorem parseMatchPattern_quiet : Quiet types parseMatchPattern := by
  intro s depth entries asked
  refine Leads.peek (Leads.quiet path_quiet fun pattern s => ?_)
  split_ifs
  · exact Leads.errorAt
  · exact Program.Leads.pure rfl

/-! ## Names and calls -/

theorem structFields_reads :
    Reads types (structFields r) fun fields => fields.flatMap fun field => field.2.asked := by
  intro s depth entries asked
  refine Leads.nextIs ?_
  split_ifs
  · exact Leads.done (by simp)
  refine Leads.loopNew (fun fields => fields.flatMap fun field => field.2.asked) _ rfl le_rfl
    (fun fields s entries => ?_) r.rounds
  refine Leads.quiet (expectIdent_quiet _) fun name s => Leads.expectPlain rfl fun s => ?_
  refine Leads.readsRound le_rfl hr.parseExpr fun value s entries => Leads.skipNewlines fun s => ?_
  refine Leads.peek ?_
  split
  · rename_i hkind
    refine Leads.advancePlain hkind rfl fun s => Leads.skipNewlines fun s => Leads.nextIs ?_
    split_ifs
    · exact Leads.finish (by simp)
    · exact Leads.goOn (by simp)
  · exact Leads.finish (by simp)
  · exact Leads.error

theorem parseStructLiteral_reads (typeName : List String) :
    Reads types (parseStructLiteral r typeName) Expr.asked := by
  intro s depth entries asked
  refine Leads.expectOpening rfl fun s => Leads.skipNewlines fun s => ?_
  refine Leads.inside (structFields_reads hr) fun fields s => Leads.skipNewlines fun s => ?_
  exact Leads.expectClosing rfl fun s => Leads.done (by simp [Expr.asked, Expr.askedFields_eq])

theorem parseCallArg_reads : Reads types (parseCallArg r) Expr.asked := by
  intro s depth entries asked
  refine Leads.takePlain rfl fun yes s => ?_
  split_ifs
  · exact Leads.quiet path_quiet fun name s => Leads.done (by simp [Expr.asked])
  · exact hr.parseExpr s depth entries asked

theorem callArgs_reads : Reads types (callArgs r) fun args => args.flatMap Expr.asked := by
  intro s depth entries asked
  refine Leads.nextIs ?_
  split_ifs
  · exact Leads.done (by simp)
  refine Leads.reads (parseCallArg_reads hr) fun first s entries => ?_
  have hfirst : first.asked = [first].flatMap Expr.asked := by simp
  rw [hfirst]
  refine Leads.loop (fun args => args.flatMap Expr.asked) le_rfl (fun args s entries => ?_)
    r.rounds [first]
  refine Leads.skipNewlines fun s => Leads.takePlain rfl fun yes s => ?_
  split_ifs
  · refine Leads.skipNewlines fun s => ?_
    exact Leads.readsRound le_rfl (parseCallArg_reads hr) fun arg s entries => Leads.goOn (by simp)
  · exact Leads.finish rfl

theorem finishCall_reads (callee : List String) (typeArgs : List TypeRef) (s : Parser)
    (hkind : s.stream.peek.kind = .lParen) (depth : ℕ) (entries : Entries)
    (asked : List (List TypeRef)) :
    Leads types (finishCall r callee typeArgs) s (noted depth entries (asked ++ [typeArgs]))
      (Ends depth entries asked Expr.asked) := by
  refine Leads.advanceOpening hkind rfl fun s => Leads.skipNewlines fun s => ?_
  refine Leads.inside (callArgs_reads hr) fun args s => Leads.skipNewlines fun s => ?_
  exact Leads.expectClosing rfl fun s => Leads.done (by simp [Expr.asked, Expr.askedAll_eq])

theorem finishNameOrCall_reads (callee : List String) (typeArgs : List TypeRef) (s : Parser)
    (depth : ℕ) (entries : Entries) (asked : List (List TypeRef)) :
    Leads types (finishNameOrCall r callee typeArgs) s (noted depth entries (asked ++ [typeArgs]))
      (Ends depth entries asked Expr.asked) := by
  refine Leads.nextIs ?_
  split_ifs with hparen hspawn hempty hempty
  · exact finishCall_reads hr callee typeArgs s (of_decide_eq_true hparen) depth entries asked
  · obtain rfl := List.isEmpty_iff.1 hempty
    exact Leads.reads hr.parseNameOrCall fun target s entries =>
      Leads.done (by simp [Expr.asked, Expr.askedAll_eq])
  · exact Leads.error
  · obtain rfl := List.isEmpty_iff.1 hempty
    exact Leads.done rfl
  · exact Leads.error

theorem parseNameOrCall_reads : Reads types (parseNameOrCall r) Expr.asked := by
  intro s depth entries asked
  refine Leads.quiet path_quiet fun callee s => Leads.peek ?_
  split_ifs
  · exact Leads.error
  refine Leads.quiet allowStructLiterals_quiet fun structLiterals s => ?_
  split_ifs
  · exact parseStructLiteral_reads hr callee s depth entries asked
  · refine Program.Leads.bind (Leads.callTypeArgs.mono fun typeArgs s g hg => ?_)
    obtain ⟨entries', rfl, hgrown⟩ := hg
    exact (finishNameOrCall_reads hr callee typeArgs s depth entries' asked).mono
      fun a t g hends => hends.grown hgrown

/-! ## Primary expressions -/

theorem arrayElements_reads : Reads types (arrayElements r) fun elements => elements.flatMap Expr.asked := by
  intro s depth entries asked
  refine Leads.nextIs ?_
  split_ifs
  · exact Leads.done (by simp)
  refine Leads.loopNew (fun elements => elements.flatMap Expr.asked) _ rfl le_rfl
    (fun elements s entries => ?_) r.rounds
  refine Leads.readsRound le_rfl hr.parseExpr fun element s entries => Leads.skipNewlines fun s => ?_
  refine Leads.takePlain rfl fun yes s => ?_
  split_ifs
  · refine Leads.skipNewlines fun s => Leads.nextIs ?_
    split_ifs
    · exact Leads.finish (by simp)
    · exact Leads.goOn (by simp)
  · exact Leads.finish (by simp)

theorem parseArrayLiteral_reads : Reads types (parseArrayLiteral r) Expr.asked := by
  intro s depth entries asked
  refine Leads.expectOpening rfl fun s => Leads.skipNewlines fun s => ?_
  refine Leads.inside (arrayElements_reads hr) fun elements s => ?_
  exact Leads.expectClosing rfl fun s => Leads.done (by simp [Expr.asked, Expr.askedAll_eq])

theorem parsePanicExpr_reads : Reads types (parsePanicExpr r) Expr.asked := by
  intro s depth entries asked
  refine Leads.expectPlain rfl fun s => Leads.expectOpening rfl fun s => ?_
  refine Leads.inside hr.parseExpr fun message s => ?_
  exact Leads.expectClosing rfl fun s => Leads.done (by simp [Expr.asked])

theorem parseExprBlock_reads (openCode openMessage : String) :
    Reads types (parseExprBlock r openCode openMessage) Expr.asked := by
  intro s depth entries asked
  refine Leads.expectOpening rfl fun s => Leads.skipNewlines fun s => ?_
  refine Leads.inside hr.parseExpr fun value s => Leads.skipNewlines fun s => ?_
  exact Leads.expectClosing rfl fun s => Leads.done rfl

theorem parseIfExpr_reads : Reads types (parseIfExpr r) Expr.asked := by
  intro s depth entries asked
  refine Leads.expectPlain rfl fun s => ?_
  refine Leads.reads (parseExprNoStructLiterals_reads hr) fun condition s entries => ?_
  refine Leads.reads (parseExprBlock_reads hr _ _) fun thenBranch s entries => ?_
  refine Leads.skipNewlines fun s => Leads.expectPlain rfl fun s => ?_
  refine Leads.reads (parseExprBlock_reads hr _ _) fun elseBranch s entries => ?_
  exact Leads.done (by simp [Expr.asked])

/-- The arms of a `match` close the bracket of the `match` at their end. -/
theorem parseMatchArms_reads {β : Type} {parseBody : Parse β} {names : β → List (List TypeRef)}
    (hbody : Reads types parseBody names) :
    Reads types (parseMatchArms r parseBody) fun result =>
      result.1.asked ++ result.2.flatMap fun arm => names arm.2.2 := by
  intro s depth entries asked
  refine Leads.expectPlain rfl fun s => ?_
  refine Leads.reads (parseExprNoStructLiterals_reads hr) fun value s entries => ?_
  refine Leads.expectOpening rfl fun s => Leads.quiet (expectNewline_quiet _) fun _ s => ?_
  refine Program.Leads.bind ((Leads.loopNew (fun arms => arms.flatMap fun arm => names arm.2.2)
    (fun arms => arms.flatMap fun arm => names arm.2.2) rfl (Nat.le_succ depth)
    (fun arms s entries => ?_) r.rounds).mono fun arms s g hends => ?_)
  · refine Leads.skipNewlines fun s => Leads.peek ?_
    split
    · rename_i hkind
      exact Leads.advanceClosing hkind rfl fun s => Leads.finish rfl
    · exact Leads.error
    refine Leads.quiet parseMatchPattern_quiet fun pattern s => ?_
    refine Leads.inside parseMatchBinding_reads fun binding s => ?_
    refine Leads.expectPlain rfl fun s => Leads.skipNewlines fun s => ?_
    refine Leads.readsRound (Nat.le_succ depth) hbody fun body s entries => ?_
    exact Leads.quiet (expectNewline_quiet _) fun _ s => Leads.goOn (by simp)
  · obtain ⟨entries', rfl, hgrown⟩ := hends
    exact Program.Leads.pure ⟨entries', by simp, hgrown⟩

theorem parseMatchExpr_reads : Reads types (parseMatchExpr r) Expr.asked := by
  intro s depth entries asked
  refine Leads.reads (parseMatchArms_reads hr hr.parseExpr) fun result s entries => ?_
  exact Leads.done (by simp [Expr.asked, Expr.askedArms_eq])

theorem parseParenthesized_reads {s : Parser} (hkind : s.stream.peek.kind = .lParen) (depth : ℕ)
    (entries : Entries) (asked : List (List TypeRef)) :
    Leads types (parseParenthesized r) s (noted depth entries asked)
      (Ends depth entries asked Expr.asked) := by
  refine Leads.advanceOpening hkind rfl fun s => Leads.skipNewlines fun s => ?_
  refine Leads.inside hr.parseExpr fun value s => Leads.skipNewlines fun s => ?_
  exact Leads.expectClosing rfl fun s => Leads.done rfl

omit hr in
theorem literal_spec {kind : TokenKind} {expr : Expr} (h : literal kind = some expr) :
    isPlain kind = true ∧ expr.asked = [] := by
  cases kind with
  | string value | int value | float value | char value | kwTrue | kwFalse | kwVoid =>
    cases h
    exact ⟨rfl, by simp [Expr.asked]⟩
  | _ => cases h

theorem parsePrimaryExpr_reads : Reads types (parsePrimaryExpr r) Expr.asked := by
  intro s depth entries asked
  refine Leads.peek ?_
  split
  · rename_i expr hliteral
    obtain ⟨hplain, hasked⟩ := literal_spec hliteral
    exact Leads.advancePlain rfl hplain fun s => Leads.done (by simp [hasked])
  split
  · rename_i hkind
    exact parseParenthesized_reads hr hkind depth entries asked
  · exact parseArrayLiteral_reads hr s depth entries asked
  · exact parseIfExpr_reads hr s depth entries asked
  · exact parseMatchExpr_reads hr s depth entries asked
  · exact parsePanicExpr_reads hr s depth entries asked
  · exact parseNameOrCall_reads hr s depth entries asked
  · exact Leads.error

/-! ## The levels -/

theorem parsePostfixExpr_reads : Reads types (parsePostfixExpr r) Expr.asked := by
  intro s depth entries asked
  refine Leads.reads (parsePrimaryExpr_reads hr) fun expr s entries => ?_
  refine Leads.loop _ le_rfl (fun expr s entries => ?_) r.rounds expr
  refine Leads.peek ?_
  split
  · rename_i hkind
    exact Leads.advancePlain hkind rfl fun s => Leads.goOn (by simp [Expr.asked])
  · rename_i hkind
    refine Leads.advanceOpening hkind rfl fun s => Leads.skipNewlines fun s => ?_
    refine Leads.inside hr.parseExpr fun index s => Leads.skipNewlines fun s => ?_
    exact Leads.expectClosing rfl fun s => Leads.goOn (by simp [Expr.asked])
  · exact Leads.finish rfl

theorem parseUnaryExpr_reads : Reads types (parseUnaryExpr r) Expr.asked := by
  intro s depth entries asked
  refine Leads.peek ?_
  split
  · rename_i hkind
    refine Leads.advancePlain hkind rfl fun s => ?_
    exact Leads.reads hr.parseUnaryExpr fun expr s entries => Leads.done (by simp [Expr.asked])
  · rename_i hkind
    refine Leads.advancePlain hkind rfl fun s => ?_
    exact Leads.reads hr.parseUnaryExpr fun expr s entries => Leads.done (by simp [Expr.asked])
  · exact parsePostfixExpr_reads hr s depth entries asked

theorem parseCastExpr_reads : Reads types (parseCastExpr r) Expr.asked := by
  intro s depth entries asked
  refine Leads.reads (parseUnaryExpr_reads hr) fun expr s entries => ?_
  refine Leads.loop _ le_rfl (fun expr s entries => ?_) r.rounds expr
  refine Leads.takePlain rfl fun yes s => ?_
  split_ifs
  · refine Leads.skipNewlines fun s => ?_
    exact Leads.readsRound le_rfl typeRef_reads fun target s entries => Leads.goOn (by simp [Expr.asked])
  · exact Leads.finish rfl

/-- **An expression** closes the brackets that it opens. -/
theorem parseLogicalOrExpr_reads : Reads types (parseLogicalOrExpr r) Expr.asked := by
  refine parseBinary_reads (fun kind h => ?_) (parseBinary_reads (fun kind h => ?_)
    (parseBinary_reads (fun kind h => ?_) (parseBinary_reads (fun kind h => ?_)
      (parseBinary_reads (fun kind h => ?_) (parseBinary_reads (fun kind h => ?_)
        (parseCastExpr_reads hr))))))
  all_goals
    revert h
    cases kind with
    | _ =>
      simp [isPlain, logicalOrOp, logicalAndOp, equalityOp, comparisonOp, additiveOp, multiplicativeOp]

end

end Nomo.Syntax
