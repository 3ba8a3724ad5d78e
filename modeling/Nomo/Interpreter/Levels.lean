import Nomo.Interpreter.Evaluate

/-!
# Levels of the browser interpreter

A run that comes to its end with a number of levels is the same run with more of them: where a level
comes to an end, the one above it does the same.
-/

namespace Nomo.Interpreter

open Nomo.Lib.Trace

variable {Op F : Type} {operations : Operations Op F} {program : Program Op F}
  {limits : ExecutionLimits}

/-- Where the functions of a level come to an end, those of another do the same. -/
structure Level.Below (level level' : Level Op F) : Prop where
  evalExpr : ∀ expression, Extends (level.evalExpr expression) (level'.evalExpr expression)
  execBlock : ∀ statements, Extends (level.execBlock statements) (level'.execBlock statements)
  rounds : ∀ kind body, Extends (level.rounds kind body) (level'.rounds kind body)

section

variable {level level' : Level Op F}

/-! ## Calls -/

theorem evalArgument_extends (h : level.Below level') (argument : ValueExpr Op F) :
    Extends (evalArgument level argument) (evalArgument level' argument) := by
  unfold evalArgument
  split
  · exact .refl _
  · exact (h.evalExpr _).bind fun _ => .refl _

theorem bindArguments_extends (h : level.Below level') (arguments : List (Parameter × ValueExpr Op F))
    (frame : Frame F) (writebacks : List (String × List String)) :
    Extends (bindArguments operations level arguments frame writebacks)
      (bindArguments operations level' arguments frame writebacks) := by
  induction arguments generalizing frame writebacks with
  | nil => exact .refl _
  | cons argument rest ih =>
    exact (evalArgument_extends h _).bind fun _ => (Extends.refl _).bind fun _ => ih _ _

theorem callDefined_extends (h : level.Below level') (name : String)
    (args : List (ValueExpr Op F)) :
    Extends (callDefined operations program limits level name args)
      (callDefined operations program limits level' name args) := by
  unfold callDefined
  refine (Extends.refl _).bind fun depth => ?_
  by_cases hdepth : depth ≥ limits.maxCallDepth
  · rw [if_pos hdepth, if_pos hdepth]
    exact .refl _
  rw [if_neg hdepth, if_neg hdepth]
  cases program.functions.find? (·.name = name) with
  | none => exact .refl _
  | some function =>
    dsimp only
    by_cases harity : function.params.length ≠ args.length
    · rw [if_pos harity, if_pos harity]
      exact .refl _
    rw [if_neg harity, if_neg harity]
    exact (bindArguments_extends h _ _ _).bind fun _ => (Extends.refl _).bind fun _ =>
      (h.execBlock _).bind fun _ => .refl _

theorem callFunction_extends (h : level.Below level') (name : String)
    (args : List (ValueExpr Op F)) :
    Extends (callFunction operations program limits level name args)
      (callFunction operations program limits level' name args) := by
  refine (Extends.refl _).bind fun _ => ?_
  split
  · exact .refl _
  · exact .refl _
  · split
    · exact .refl _
    · exact h.evalExpr _
  · exact callDefined_extends h name args

/-! ## Expressions -/

theorem evalOperands_extends (h : level.Below level') (op : Op) (operands : List (ValueExpr Op F))
    (values : List (Value F)) :
    Extends (evalOperands operations level op operands values)
      (evalOperands operations level' op operands values) := by
  induction operands generalizing values with
  | nil => exact .refl _
  | cons operand rest ih =>
    exact (h.evalExpr operand).bind fun _ => (Extends.refl _).bind fun _ => ih _

theorem evalIndex_extends (h : level.Below level') (index : ValueExpr Op F) :
    Extends (evalIndex level index) (evalIndex level' index) :=
  (h.evalExpr index).bind fun _ => .refl _

theorem evalCondition_extends (h : level.Below level') (condition : ValueExpr Op F) :
    Extends (evalCondition level condition) (evalCondition level' condition) :=
  (h.evalExpr condition).bind fun _ => .refl _

theorem unwrapOr_extends (h : level.Below level') (variant : String) (value : Value F)
    (default : ValueExpr Op F) :
    Extends (unwrapOr level variant value default) (unwrapOr level' variant value default) := by
  unfold unwrapOr
  split
  · split_ifs
    · exact .refl _
    · exact h.evalExpr default
  · exact h.evalExpr default

theorem evalKind_extends (h : level.Below level') (expression : ValueExpr Op F) :
    Extends (evalKind operations program limits level expression)
      (evalKind operations program limits level' expression) := by
  cases expression with
  | call name args => exact callFunction_extends h name args
  | logicalAnd left right =>
    refine (evalCondition_extends h left).bind fun left => ?_
    split_ifs
    · exact (evalCondition_extends h right).bind fun _ => .refl _
    · exact .refl _
  | logicalOr left right =>
    refine (evalCondition_extends h left).bind fun left => ?_
    split_ifs
    · exact .refl _
    · exact (evalCondition_extends h right).bind fun _ => .refl _
  | arrayPush array value => exact (h.evalExpr value).bind fun _ => .refl _
  | arraySet array index value | arrayInsert array index value =>
    exact (evalIndex_extends h index).bind fun _ => (h.evalExpr value).bind fun _ => .refl _
  | arrayRemove array index => exact (evalIndex_extends h index).bind fun _ => .refl _
  | arrayIter array => exact h.evalExpr array
  | matchArms value arms =>
    refine (h.evalExpr value).bind fun value => ?_
    split
    · split
      · exact .refl _
      · exact (Extends.refl _).bind fun _ => h.evalExpr _
    · exact .refl _
  | conditional condition thenBranch elseBranch =>
    refine (evalCondition_extends h condition).bind fun condition => ?_
    split_ifs
    · exact h.evalExpr thenBranch
    · exact h.evalExpr elseBranch
  | optionUnwrapOr option default =>
    exact (h.evalExpr option).bind fun _ => unwrapOr_extends h _ _ _
  | resultUnwrapOr result default =>
    exact (h.evalExpr result).bind fun _ => unwrapOr_extends h _ _ _
  | operation op operands => exact (evalOperands_extends h op operands []).bind fun _ => .refl _
  | _ => exact .refl _

/-! ## Statements -/

theorem runDeferred_extends (h : level.Below level') (call : DeferredCall Op F) :
    Extends (runDeferred operations limits level call) (runDeferred operations limits level' call) := by
  refine (Extends.refl _).bind fun _ => ?_
  cases call with
  | expr expr | write stderr newline expr => exact (h.evalExpr expr).bind fun _ => .refl _

theorem iterateValues_extends (h : level.Below level') (binding : String)
    (body : List (Statement Op F)) (values : List (Value F)) :
    Extends (iterateValues limits level binding body values)
      (iterateValues limits level' binding body values) := by
  induction values with
  | nil => exact .refl _
  | cons value values ih =>
    refine (Extends.refl _).bind fun _ => (Extends.refl _).bind fun _ => ?_
    refine (h.execBlock body).bind fun signal => ?_
    cases signal with
    | next | continueSignal => exact ih
    | breakSignal | returnSignal value => exact .refl _

theorem execLoop_extends (h : level.Below level') (kind : LoopKind Op F)
    (body : List (Statement Op F)) :
    Extends (execLoop operations limits level kind body)
      (execLoop operations limits level' kind body) := by
  cases kind with
  | infinite | whileLoop condition => exact h.rounds _ body
  | cStyle binding valueType initializer condition update =>
    exact (h.evalExpr initializer).bind fun _ => (Extends.refl _).bind fun _ =>
      (Extends.refl _).bind fun _ => h.rounds _ body
  | iterate binding iterable =>
    refine (h.evalExpr iterable).bind fun value => ?_
    split
    · exact iterateValues_extends h _ _ _
    · exact .refl _

theorem updateLoop_extends (h : level.Below level') (kind : LoopKind Op F) :
    Extends (updateLoop operations level kind) (updateLoop operations level' kind) := by
  unfold updateLoop
  split
  · exact (h.evalExpr _).bind fun _ => .refl _
  · exact .refl _

theorem execRound_extends (h : level.Below level') (kind : LoopKind Op F)
    (body : List (Statement Op F)) :
    Extends (execRound operations limits level kind body)
      (execRound operations limits level' kind body) := by
  refine (Extends.refl _).bind fun _ => (h.execBlock body).bind fun signal => ?_
  cases signal with
  | next | continueSignal => exact (updateLoop_extends h kind).bind fun _ => h.rounds kind body
  | breakSignal | returnSignal value => exact .refl _

theorem execRounds_extends (h : level.Below level') (kind : LoopKind Op F)
    (body : List (Statement Op F)) :
    Extends (execRounds operations limits level kind body)
      (execRounds operations limits level' kind body) := by
  have hcondition (condition kind) : Extends (do
        if ← evalCondition level condition then execRound operations limits level kind body
        else return .next)
      (do
        if ← evalCondition level' condition then execRound operations limits level' kind body
        else return .next) := by
    refine (evalCondition_extends h condition).bind fun condition => ?_
    split_ifs
    · exact execRound_extends h kind body
    · exact .refl _
  cases kind with
  | infinite => exact execRound_extends h _ body
  | whileLoop condition | cStyle binding valueType initializer condition update => exact hcondition _ _
  | iterate binding iterable => exact .refl _

theorem execQuestionLet_extends (h : level.Below level') (carrier : QuestionCarrier) (name : String)
    (valueType : ValueType) (resultExpr : ValueExpr Op F)
    (earlyExitActions : List (ValueExpr Op F)) :
    Extends (execQuestionLet operations level carrier name valueType resultExpr earlyExitActions)
      (execQuestionLet operations level' carrier name valueType resultExpr earlyExitActions) := by
  refine (h.evalExpr resultExpr).bind fun value => ?_
  cases value with
  | enum enumName variant payload =>
    dsimp only
    split_ifs
    · exact (Extends.collect h.evalExpr _).bind fun _ => .refl _
    all_goals exact .refl _
  | _ => exact .refl _

theorem execStatement_extends (h : level.Below level') (statement : Statement Op F) :
    Extends (execStatement operations limits level statement)
      (execStatement operations limits level' statement) := by
  cases statement with
  | letStmt name valueType initializer => exact (h.evalExpr initializer).bind fun _ => .refl _
  | questionLet carrier name valueType resultExpr earlyExitActions =>
    exact execQuestionLet_extends h _ _ _ _ _
  | questionReturn resultExpr => exact (h.evalExpr resultExpr).bind fun _ => .refl _
  | letElse binding value variant elseBody =>
    refine (h.evalExpr value).bind fun value => ?_
    cases value with
    | enum name actual payload =>
      dsimp only
      split_ifs
      · exact .refl _
      · exact h.execBlock elseBody
    | _ => exact .refl _
  | ifLet binding value variant body elseBody =>
    have helse : Extends (execStatement.execElse level elseBody)
        (execStatement.execElse level' elseBody) := by
      cases elseBody with
      | none => exact .refl _
      | some elseBody => exact h.execBlock elseBody
    refine (h.evalExpr value).bind fun value => ?_
    cases value with
    | enum name actual payload =>
      dsimp only
      split_ifs
      · exact (Extends.refl _).bind fun _ => h.execBlock body
      · exact helse
    | _ => exact helse
  | ifStmt condition body elseBody =>
    refine (evalCondition_extends h condition).bind fun condition => ?_
    split_ifs
    · exact h.execBlock body
    · exact h.execBlock elseBody
  | assign name value | assignField base field value => exact (h.evalExpr value).bind fun _ => .refl _
  | arrayIndexAssign root indices value =>
    exact (Extends.collect (evalIndex_extends h) indices).bind fun _ =>
      (h.evalExpr value).bind fun _ => .refl _
  | write stderr newline expr | expr expr => exact (h.evalExpr expr).bind fun _ => .refl _
  | panic message => exact (h.evalExpr message).bind fun _ => .refl _
  | returnStmt value =>
    cases value with
    | none => exact .refl _
    | some value => exact (h.evalExpr value).bind fun _ => .refl _
  | matchStmt value arms =>
    refine (h.evalExpr value).bind fun value => ?_
    split
    · split
      · exact .refl _
      · exact (Extends.refl _).bind fun _ => h.execBlock _
    · exact .refl _
  | loop kind body => exact execLoop_extends h kind body
  | _ => exact .refl _

theorem execStatements_extends (h : level.Below level') (statements : List (Statement Op F))
    (deferred : List (DeferredCall Op F)) :
    Extends (execStatements operations limits level statements deferred)
      (execStatements operations limits level' statements deferred) := by
  have hdeferred : ∀ (calls : List (DeferredCall Op F)) (signal : Signal F), Extends (do
        .each (runDeferred operations limits level) calls
        return signal)
      (do
        .each (runDeferred operations limits level') calls
        return signal) :=
    fun calls signal => (Extends.each (runDeferred_extends h) calls).bind fun _ => .refl _
  induction statements generalizing deferred with
  | nil => exact hdeferred _ _
  | cons statement rest ih =>
    unfold execStatements
    split
    · rename_i heq
      cases heq
    · rename_i heq
      cases heq
      exact (Extends.refl _).bind fun _ => ih _
    rename_i heq
    cases heq
    refine (Extends.refl _).bind fun _ => (execStatement_extends h statement).bind fun signal => ?_
    cases signal with
    | next => exact ih _
    | continueSignal | breakSignal | returnSignal value => exact hdeferred _ _

end

/-! ## Runs -/

theorem levels_extends (n : ℕ) : (levels operations program limits n).Below
    (levels operations program limits (n + 1)) := by
  induction n with
  | zero => exact ⟨fun _ => .unfinished _, fun _ => .unfinished _, fun _ _ => .unfinished _⟩
  | succ n ih =>
    refine ⟨fun expression => ?_, fun statements => ?_, fun kind body => ?_⟩
    · exact (Extends.refl _).bind fun _ => evalKind_extends ih expression
    · exact execStatements_extends ih statements []
    · exact execRounds_extends ih kind body

/-- **A run that comes to its end is the same with more levels.** -/
theorem runMain_extends {n m : ℕ} (hnm : n ≤ m) :
    Extends (runMain operations program limits n) (runMain operations program limits m) := by
  induction hnm with
  | refl => exact .refl _
  | @step m hnm ih =>
    have hlevels : (levels operations program limits m).Below
        (levels operations program limits (m + 1)) := levels_extends m
    have hconstant : ∀ constant, Extends
        (evalConstant operations (levels operations program limits m) constant)
        (evalConstant operations (levels operations program limits (m + 1)) constant) :=
      fun constant => (hlevels.evalExpr _).bind fun _ => .refl _
    refine ih.trans ((Extends.each hconstant program.consts).bind fun _ => ?_)
    exact (callFunction_extends hlevels "main" []).bind fun _ => .refl _

end Nomo.Interpreter
