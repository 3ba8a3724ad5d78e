import Nomo.Ir.Modes
import Nomo.Mir.Branches

/-!
# The modes the optimiser is given

Whether the result of `optimize_release_program` depends on the mutation modes its input carries.
Two programs are equal except for their modes when `Program.setMode` makes them equal.  The reset
pass gives every store the same mode except one in an operand of an indexed assignment: the arm of
`Statement::ArrayIndexAssign` in `reset_body_mutation_modes` (`nomo_mir/src/lib.rs:210–213`) visits
neither the indices nor the value, and no later pass does either.  `operandModes` lists the modes of
these stores, so the result is independent of the modes exactly when there are none.
-/

namespace Nomo.Mir

open Nomo.Ir Nomo.Lib

/-! ## The stores of a body -/

/-- The expressions evaluated by the header of a loop. -/
def loopExpressions : LoopKind → List ValueExpr
  | .infinite => []
  | .whileTrue condition => [condition]
  | .cStyle _ _ initializer condition update => [initializer, condition, update]
  | .iterate _ _ iterable => [iterable]

/-- The expressions of the operation of a select arm. -/
def selectExpressions : TaskSelectOperation → List ValueExpr
  | .receive channel _ => [channel]
  | .send channel value _ => [channel, value]
  | .sleep duration => [duration]
  | .join _ => []

/-- The operation of a select arm. -/
def armOperation : TaskSelectArm → TaskSelectOperation
  | ⟨operation, _, _, _⟩ => operation

/-- The operands of an indexed assignment. -/
def indexOperands : Statement → List ValueExpr
  | .arrayIndexAssign _ indices _ value _ => indices ++ [value]
  | _ => []

/-- The mode of a statement that is itself a store. -/
def storeMode : Statement → Option ArrayMutationMode
  | .arrayIndexAssign _ _ _ _ mode | .assign _ (.arraySet _ _ _ _ mode) => some mode
  | _ => none

/-- A binding initialised by a store to the array it binds.  `assign_operations` detaches for it as
for an assignment; `annotate_body` does not mark it. -/
def setsItself : Statement → Bool
  | .letBind name _ (.arraySet array _ _ _ _) => array = name
  | _ => false

/-- The expressions of a statement, nested bodies and the store it is excepted. -/
def expressions : Statement → List ValueExpr
  | .arrayIndexAssign _ indices _ value _ => indices ++ [value]
  | .assign _ (.arraySet _ index value _ _) => [index, value]
  | .letBind _ _ value | .assign _ value | .assignField _ _ _ value | .eprintln value
  | .eprint value | .println value | .print value | .panic value | .expr value
  | .returnValue (some value) | .letIf _ _ value _ _ | .ifThenElse value _ _
  | .letMatch _ _ value _ _ | .matchOn value _ _ | .letElse _ _ value _ _
  | .ifLet _ _ value _ _ _ => [value]
  | .questionLet _ _ _ value actions | .questionReturn _ _ value actions => value :: actions
  | .loop kind _ => loopExpressions kind
  | .defer call => [call.operand]
  | .taskSelect arms => arms.flatMap fun arm => selectExpressions (armOperation arm)
  | .breakLoop | .continueLoop | .returnValue none => []

/-- The store with mode `mode` is in the body whose first statement has number `next`: it is the
statement number `i` itself for the site `some i`, and an expression for the site `none`. -/
inductive StoreAt : List Statement → Nat → Option Nat → ArrayMutationMode → Prop
  | own {s rest next mode} (h : storeMode s = some mode) : StoreAt (s :: rest) next (some next) mode
  | inside {s rest next mode} (h : mode ∈ modesAll (expressions s)) :
      StoreAt (s :: rest) next none mode
  | nested {s rest next site mode} (before : List (List Statement)) (body : List Statement)
      (after : List (List Statement)) (hs : branches s = before ++ body :: after)
      (h : StoreAt body (next + 1 + branchesCount before) site mode) :
      StoreAt (s :: rest) next site mode
  | later {s rest next site mode} (h : StoreAt rest (next + statementCount s) site mode) :
      StoreAt (s :: rest) next site mode

mutual

/-- The modes of the stores in the operands of the indexed assignments of a statement. -/
def statementOperandModes : Statement → List ArrayMutationMode
  | .arrayIndexAssign _ indices _ value _ => modesAll (indices ++ [value])
  | .letIf _ _ _ body elseBody | .ifThenElse _ body elseBody
  | .ifLet _ _ _ _ body (some elseBody) => bodyOperandModes body ++ bodyOperandModes elseBody
  | .letMatch _ _ _ _ arms | .matchOn _ _ arms => armsOperandModes arms
  | .letElse _ _ _ _ body | .ifLet _ _ _ _ body none | .loop _ body => bodyOperandModes body
  | .taskSelect arms => selectOperandModes arms
  | _ => []

/-- The modes of the stores in the operands of the indexed assignments of a body. -/
def bodyOperandModes : List Statement → List ArrayMutationMode
  | [] => []
  | s :: rest => statementOperandModes s ++ bodyOperandModes rest

/-- `bodyOperandModes` over match arms. -/
def armsOperandModes : List MatchStatementArm → List ArrayMutationMode
  | [] => []
  | ⟨_, _, body⟩ :: arms => bodyOperandModes body ++ armsOperandModes arms

/-- `bodyOperandModes` over select arms. -/
def selectOperandModes : List TaskSelectArm → List ArrayMutationMode
  | [] => []
  | ⟨_, _, _, body⟩ :: arms => bodyOperandModes body ++ selectOperandModes arms

end

/-- The modes of the stores in the operands of the indexed assignments of a program. -/
def operandModes (program : Program) : List ArrayMutationMode :=
  program.functions.flatMap fun function => bodyOperandModes function.body

theorem armsOperandModes_eq (arms : List MatchStatementArm) :
    armsOperandModes arms = (arms.map MatchStatementArm.body).flatMap bodyOperandModes := by
  rw [List.flatMap_map]
  exact flatMap_of_cons rfl (fun ⟨_, _, _⟩ _ => rfl) arms

variable (mode : ArrayMutationMode) (proven : List Nat) (arms : List TaskSelectArm)
  (s : Statement)

theorem selectOperandModes_eq :
    selectOperandModes arms = (arms.map TaskSelectArm.body).flatMap bodyOperandModes := by
  rw [List.flatMap_map]
  exact flatMap_of_cons rfl (fun ⟨_, _, _, _⟩ _ => rfl) arms

theorem statementOperandModes_eq :
    statementOperandModes s
      = modesAll (indexOperands s) ++ (branches s).flatMap bodyOperandModes := by
  cases s with
  | letMatch name t value enumName arms | matchOn value enumName arms =>
    simp [statementOperandModes, branches, indexOperands, modesAll, armsOperandModes_eq]
  | taskSelect arms =>
    simp [statementOperandModes, branches, indexOperands, modesAll, selectOperandModes_eq]
  | ifLet binding t value variant body elseBody =>
    cases elseBody <;> simp [statementOperandModes, branches, indexOperands, modesAll]
  | _ => simp [statementOperandModes, branches, indexOperands, modesAll]

/-! ## Replacing the modes -/

/-- A deferred call with the mode of every store replaced. -/
def setModeDeferred (mode : ArrayMutationMode) : DeferredCall → DeferredCall
  | .expr value => .expr (value.setMode mode)
  | .println value => .println (value.setMode mode)
  | .print value => .print (value.setMode mode)
  | .eprintln value => .eprintln (value.setMode mode)
  | .eprint value => .eprint (value.setMode mode)

/-- The operation of a select arm with the mode of every store replaced. -/
def setModeSelectOperation (mode : ArrayMutationMode) : TaskSelectOperation → TaskSelectOperation
  | .receive channel elementType => .receive (channel.setMode mode) elementType
  | .send channel value elementType => .send (channel.setMode mode) (value.setMode mode) elementType
  | .sleep duration => .sleep (duration.setMode mode)
  | .join handle => .join handle

/-- The header of a loop with the mode of every store replaced. -/
def setModeLoopKind (mode : ArrayMutationMode) : LoopKind → LoopKind
  | .infinite => .infinite
  | .whileTrue condition => .whileTrue (condition.setMode mode)
  | .cStyle binding valueType initializer condition update =>
    .cStyle binding valueType (initializer.setMode mode) (condition.setMode mode)
      (update.setMode mode)
  | .iterate binding elementType iterable => .iterate binding elementType (iterable.setMode mode)

mutual

/-- A statement with the mode of every store replaced, at every depth. -/
def setModeStatement (mode : ArrayMutationMode) : Statement → Statement
  | .arrayIndexAssign root indices arrayTypes value _ =>
    .arrayIndexAssign root (setModeAll mode indices) arrayTypes (value.setMode mode) mode
  | .letBind name valueType initializer => .letBind name valueType (initializer.setMode mode)
  | .letIf name valueType condition body elseBody =>
    .letIf name valueType (condition.setMode mode) (setModeBody mode body)
      (setModeBody mode elseBody)
  | .letMatch name valueType value enumName arms =>
    .letMatch name valueType (value.setMode mode) enumName (setModeStatementArms mode arms)
  | .matchOn value enumName arms =>
    .matchOn (value.setMode mode) enumName (setModeStatementArms mode arms)
  | .questionLet carrier name valueType resultExpr earlyExitActions =>
    .questionLet carrier name valueType (resultExpr.setMode mode) (setModeAll mode earlyExitActions)
  | .questionReturn carrier okType resultExpr earlyExitActions =>
    .questionReturn carrier okType (resultExpr.setMode mode) (setModeAll mode earlyExitActions)
  | .letElse binding valueType value variant elseBody =>
    .letElse binding valueType (value.setMode mode) variant (setModeBody mode elseBody)
  | .ifLet binding valueType value variant body none =>
    .ifLet binding valueType (value.setMode mode) variant (setModeBody mode body) none
  | .ifLet binding valueType value variant body (some elseBody) =>
    .ifLet binding valueType (value.setMode mode) variant (setModeBody mode body)
      (some (setModeBody mode elseBody))
  | .ifThenElse condition body elseBody =>
    .ifThenElse (condition.setMode mode) (setModeBody mode body) (setModeBody mode elseBody)
  | .assign name value => .assign name (value.setMode mode)
  | .assignField base field valueType value => .assignField base field valueType (value.setMode mode)
  | .eprintln value => .eprintln (value.setMode mode)
  | .eprint value => .eprint (value.setMode mode)
  | .println value => .println (value.setMode mode)
  | .print value => .print (value.setMode mode)
  | .panic message => .panic (message.setMode mode)
  | .expr value => .expr (value.setMode mode)
  | .returnValue (some value) => .returnValue (some (value.setMode mode))
  | .taskSelect arms => .taskSelect (setModeSelectArms mode arms)
  | .loop kind body => .loop (setModeLoopKind mode kind) (setModeBody mode body)
  | .defer call => .defer (setModeDeferred mode call)
  | .breakLoop => .breakLoop
  | .continueLoop => .continueLoop
  | .returnValue none => .returnValue none

/-- A body with the mode of every store replaced. -/
def setModeBody (mode : ArrayMutationMode) : List Statement → List Statement
  | [] => []
  | s :: rest => setModeStatement mode s :: setModeBody mode rest

/-- Match arms with the mode of every store replaced. -/
def setModeStatementArms (mode : ArrayMutationMode) : List MatchStatementArm → List MatchStatementArm
  | [] => []
  | ⟨variant, binding, body⟩ :: arms =>
    ⟨variant, binding, setModeBody mode body⟩ :: setModeStatementArms mode arms

/-- Select arms with the mode of every store replaced. -/
def setModeSelectArms (mode : ArrayMutationMode) : List TaskSelectArm → List TaskSelectArm
  | [] => []
  | ⟨operation, binding, bindingType, body⟩ :: arms =>
    ⟨setModeSelectOperation mode operation, binding, bindingType, setModeBody mode body⟩
      :: setModeSelectArms mode arms

end

/-- A program with the mode of every store replaced. -/
def setModeProgram (mode : ArrayMutationMode) (program : Program) : Program :=
  { program with functions := program.functions.map fun function =>
      { function with body := setModeBody mode function.body } }

/-- Two programs that are equal except for the modes of their stores. -/
def SameUpToModes (p q : Program) : Prop :=
  setModeProgram .checkedCow p = setModeProgram .checkedCow q

theorem bodies_setModeArms (arms : List MatchStatementArm) :
    (setModeStatementArms mode arms).map MatchStatementArm.body
      = (arms.map MatchStatementArm.body).map (setModeBody mode) := by
  rw [List.map_map]
  exact map_of_cons (f := fun arms => (setModeStatementArms mode arms).map _) rfl
    (fun ⟨_, _, _⟩ _ => rfl) arms

theorem bodies_setModeSelectArms :
    (setModeSelectArms mode arms).map TaskSelectArm.body
      = (arms.map TaskSelectArm.body).map (setModeBody mode) := by
  rw [List.map_map]
  exact map_of_cons (f := fun arms => (setModeSelectArms mode arms).map _) rfl
    (fun ⟨_, _, _, _⟩ _ => rfl) arms

theorem branches_setMode :
    branches (setModeStatement mode s) = (branches s).map (setModeBody mode) := by
  cases s with
  | letMatch name t value enumName arms | matchOn value enumName arms =>
    simp only [setModeStatement, branches, bodies_setModeArms]
  | taskSelect arms => simp only [setModeStatement, branches, bodies_setModeSelectArms]
  | ifLet binding t value variant body elseBody => cases elseBody <;> rfl
  | returnValue value => cases value <;> rfl
  | _ => rfl

theorem indexOperands_setMode :
    indexOperands (setModeStatement mode s) = (indexOperands s).map (ValueExpr.setMode mode) := by
  cases s with
  | arrayIndexAssign root indices types value m =>
    simp [setModeStatement, indexOperands, setModeAll_eq]
  | ifLet binding t value variant body elseBody => cases elseBody <;> rfl
  | returnValue value => cases value <;> rfl
  | _ => rfl

theorem selectExpressions_setMode :
    ((setModeSelectArms mode arms).flatMap fun arm => selectExpressions (armOperation arm))
      = (arms.flatMap fun arm => selectExpressions (armOperation arm)).map
          (ValueExpr.setMode mode) := by
  induction arms with
  | nil => rfl
  | cons arm arms ih =>
    obtain ⟨operation, binding, bindingType, body⟩ := arm
    rw [setModeSelectArms, List.flatMap_cons, ih, List.flatMap_cons, List.map_append]
    cases operation <;> rfl

theorem expressions_setMode :
    expressions (setModeStatement mode s) = (expressions s).map (ValueExpr.setMode mode) := by
  cases s with
  | arrayIndexAssign root indices types value m | questionLet carrier name t value actions
      | questionReturn carrier t value actions =>
    simp [setModeStatement, expressions, setModeAll_eq]
  | assign name value =>
    cases value with
    | enumVariant enumName args variant payload => cases payload <;> rfl
    | _ => rfl
  | ifLet binding t value variant body elseBody => cases elseBody <;> rfl
  | returnValue value => cases value <;> rfl
  | taskSelect arms => exact selectExpressions_setMode mode arms
  | loop kind body => cases kind <;> rfl
  | «defer» call => cases call <;> rfl
  | _ => rfl

theorem storeMode_setMode :
    storeMode (setModeStatement mode s) = (storeMode s).map fun _ => mode := by
  cases s with
  | assign name value =>
    cases value with
    | enumVariant enumName args variant payload => cases payload <;> rfl
    | _ => rfl
  | ifLet binding t value variant body elseBody => cases elseBody <;> rfl
  | returnValue value => cases value <;> rfl
  | _ => rfl

theorem modesAll_setMode (es : List ValueExpr) :
    modesAll (es.map (ValueExpr.setMode mode)) = (modesAll es).map fun _ => mode := by
  simp only [modesAll_eq, List.flatMap_map, List.map_flatMap, modes_setMode]

theorem bodyOperandModes_setMode (body : List Statement) :
    bodyOperandModes (setModeBody mode body) = (bodyOperandModes body).map fun _ => mode := by
  induction body using body_induct with
  | nil => rfl
  | cons s rest hs hrest =>
    rw [setModeBody, bodyOperandModes, bodyOperandModes, hrest, statementOperandModes_eq,
      statementOperandModes_eq, branches_setMode, indexOperands_setMode, modesAll_setMode,
      List.flatMap_map, List.flatMap_congr hs]
    simp only [List.map_append, List.map_flatMap]

theorem StoreAt.setMode {m mode : ArrayMutationMode} (body : List Statement) {next : Nat}
    {site : Option Nat} (h : StoreAt (setModeBody m body) next site mode) : mode = m := by
  induction body using body_induct generalizing next with
  | nil => cases h
  | cons s rest hs hrest =>
    cases h with
    | own h =>
      rw [storeMode_setMode] at h
      obtain ⟨_, -, rfl⟩ := Option.map_eq_some_iff.1 h
      rfl
    | inside h =>
      rw [expressions_setMode, modesAll_setMode] at h
      obtain ⟨_, -, rfl⟩ := List.mem_map.1 h
      rfl
    | nested before body after hb h =>
      rw [branches_setMode] at hb
      obtain ⟨b, hmem, rfl⟩ : ∃ b ∈ branches s, setModeBody m b = body :=
        List.mem_map.1 (hb ▸ by simp)
      exact hs b hmem h
    | later h => exact hrest h

/-! ## The reset pass -/

theorem resetExprs_eq (es : List ValueExpr) : resetExprs es = es.map resetExpr :=
  map_of_cons rfl (fun _ _ => rfl) es

theorem resetExprArms_eq {arms : List MatchValueArm}
    (h : ∀ c ∈ arms.map MatchValueArm.value, resetExpr c = c.setMode .checkedCow) :
    resetExprArms arms = setModeArms .checkedCow arms := by
  induction arms with
  | nil => rfl
  | cons arm arms ih =>
    obtain ⟨variant, binding, value⟩ := arm
    simp only [resetExprArms, setModeArms, ih fun c hc => h c (List.mem_cons_of_mem _ hc),
      h value (by simp [MatchValueArm.value])]

theorem resetExpr_eq (e : ValueExpr) : resetExpr e = e.setMode .checkedCow := by
  induction e using expr_induct with
  | step e ih =>
    cases e with
    | builtin op args | call name args | arrayLiteral args t | structLiteral t names args =>
      simp only [ValueExpr.setMode, resetExpr, resetExprs_eq, setModeAll_eq]
      congr 1
      exact List.map_congr_left ih
    | matchOn value arms =>
      simp only [ValueExpr.setMode, resetExpr, ih value (by simp [ValueExpr.childExpressions]),
        resetExprArms_eq fun c hc => ih c (List.mem_cons_of_mem _ hc)]
    | enumVariant enumName args variant payload =>
      cases payload with
      | none => rfl
      | some payload =>
        simp only [ValueExpr.setMode, resetExpr, ih payload (by simp [ValueExpr.childExpressions])]
    | _ => simp_all [ValueExpr.setMode, resetExpr, ValueExpr.childExpressions]

theorem resetExprs_setMode (es : List ValueExpr) : resetExprs es = setModeAll .checkedCow es := by
  rw [resetExprs_eq, setModeAll_eq, funext resetExpr_eq]

theorem resetSelectOperation_eq (operation : TaskSelectOperation) :
    resetSelectOperation operation = setModeSelectOperation .checkedCow operation := by
  cases operation <;> simp [resetSelectOperation, setModeSelectOperation, resetExpr_eq]

theorem resetArms_eq {arms : List MatchStatementArm}
    (h : ∀ body ∈ arms.map MatchStatementArm.body, resetBody body = setModeBody .checkedCow body) :
    resetArms arms = setModeStatementArms .checkedCow arms := by
  induction arms with
  | nil => rfl
  | cons arm arms ih =>
    obtain ⟨variant, binding, body⟩ := arm
    simp only [resetArms, setModeStatementArms, ih fun b hb => h b (List.mem_cons_of_mem _ hb),
      h body (by simp [MatchStatementArm.body])]

theorem resetSelectArms_eq {arms : List TaskSelectArm}
    (h : ∀ body ∈ arms.map TaskSelectArm.body, resetBody body = setModeBody .checkedCow body) :
    resetSelectArms arms = setModeSelectArms .checkedCow arms := by
  induction arms with
  | nil => rfl
  | cons arm arms ih =>
    obtain ⟨operation, binding, bindingType, body⟩ := arm
    simp only [resetSelectArms, setModeSelectArms, ih fun b hb => h b (List.mem_cons_of_mem _ hb),
      h body (by simp [TaskSelectArm.body]), resetSelectOperation_eq]

theorem setModeAll_of_modes {m : ArrayMutationMode} {es : List ValueExpr}
    (h : ∀ m' ∈ modesAll es, m' = m) : setModeAll m es = es := by
  rw [setModeAll_eq]
  rw [modesAll_eq] at h
  refine (List.map_congr_left fun e he => ?_).trans (List.map_id es)
  exact setMode_of_modes e fun m' hm => h m' (List.mem_flatMap.2 ⟨e, he, hm⟩)

/-- The reset pass reaches every store of a statement whose operands hold none. -/
theorem resetStatement_eq (hops : modesAll (indexOperands s) = [])
    (h : ∀ body ∈ branches s, resetBody body = setModeBody .checkedCow body) :
    resetStatement s = setModeStatement .checkedCow s := by
  cases s with
  | arrayIndexAssign root indices types value m =>
    have hall : setModeAll .checkedCow (indexOperands (.arrayIndexAssign root indices types value m)) = _ :=
      setModeAll_of_modes (by simp [hops])
    rw [setModeAll_eq, indexOperands, List.map_append, ← setModeAll_eq] at hall
    obtain ⟨hi, hv⟩ := List.append_inj' hall rfl
    rw [resetStatement, setModeStatement, hi, List.singleton_inj.1 hv]
  | letMatch name t value enumName arms | matchOn value enumName arms =>
    simp only [resetStatement, setModeStatement, resetExpr_eq, resetArms_eq h]
  | taskSelect arms => simp only [resetStatement, setModeStatement, resetSelectArms_eq h]
  | letIf name t condition a b | ifThenElse condition a b =>
    simp only [resetStatement, setModeStatement, resetExpr_eq, h a (by simp [branches]),
      h b (by simp [branches])]
  | ifLet binding t value variant a elseBody =>
    cases elseBody with
    | none =>
      simp only [resetStatement, setModeStatement, resetExpr_eq, h a (by simp [branches])]
    | some b =>
      simp only [resetStatement, setModeStatement, resetExpr_eq, h a (by simp [branches]),
        h b (by simp [branches])]
  | letElse binding t value variant a =>
    simp only [resetStatement, setModeStatement, resetExpr_eq, h a (by simp [branches])]
  | loop kind a =>
    rw [resetStatement, setModeStatement, h a (by simp [branches])]
    cases kind <;> simp [resetLoopKind, setModeLoopKind, resetExpr_eq]
  | «defer» call =>
    cases call <;> simp [resetStatement, setModeStatement, resetDeferred, setModeDeferred, resetExpr_eq]
  | returnValue value =>
    cases value <;> simp only [resetStatement, setModeStatement, resetExpr_eq]
  | questionLet carrier name t value actions | questionReturn carrier t value actions =>
    simp only [resetStatement, setModeStatement, resetExpr_eq, resetExprs_setMode]
  | _ => simp only [resetStatement, setModeStatement, resetExpr_eq]

/-- The reset pass reaches every store of a body in which no operand of an indexed assignment holds
one. -/
theorem resetBody_eq (body : List Statement) (h : bodyOperandModes body = []) :
    resetBody body = setModeBody .checkedCow body := by
  induction body using body_induct with
  | nil => rfl
  | cons s rest hs hrest =>
    rw [bodyOperandModes, statementOperandModes_eq, List.append_eq_nil_iff, List.append_eq_nil_iff] at h
    obtain ⟨⟨hops, hbranches⟩, hlater⟩ := h
    rw [resetBody, setModeBody, hrest hlater, resetStatement_eq s hops fun body hb =>
      hs body hb (List.flatMap_eq_nil_iff.1 hbranches body hb)]

theorem bodies_resetArms (arms : List MatchStatementArm) :
    (resetArms arms).map MatchStatementArm.body
      = (arms.map MatchStatementArm.body).map resetBody := by
  rw [List.map_map]
  exact map_of_cons (f := fun arms => (resetArms arms).map _) rfl (fun ⟨_, _, _⟩ _ => rfl) arms

theorem bodies_resetSelectArms :
    (resetSelectArms arms).map TaskSelectArm.body
      = (arms.map TaskSelectArm.body).map resetBody := by
  rw [List.map_map]
  exact map_of_cons (f := fun arms => (resetSelectArms arms).map _) rfl
    (fun ⟨_, _, _, _⟩ _ => rfl) arms

theorem branches_reset :
    branches (resetStatement s) = (branches s).map resetBody := by
  cases s with
  | letMatch name t value enumName arms | matchOn value enumName arms =>
    simp only [resetStatement, branches, bodies_resetArms]
  | taskSelect arms => simp only [resetStatement, branches, bodies_resetSelectArms]
  | ifLet binding t value variant body elseBody => cases elseBody <;> rfl
  | returnValue value => cases value <;> rfl
  | _ => rfl

theorem indexOperands_reset : indexOperands (resetStatement s) = indexOperands s := by
  cases s with
  | ifLet binding t value variant body elseBody => cases elseBody <;> rfl
  | returnValue value => cases value <;> rfl
  | _ => rfl

theorem bodyOperandModes_reset (body : List Statement) :
    bodyOperandModes (resetBody body) = bodyOperandModes body := by
  induction body using body_induct with
  | nil => rfl
  | cons s rest hs hrest =>
    rw [resetBody, bodyOperandModes, bodyOperandModes, hrest, statementOperandModes_eq,
      statementOperandModes_eq, branches_reset, indexOperands_reset, List.flatMap_map,
      List.flatMap_congr hs]

/-! ## The annotation -/

/-- Annotate a list of bodies one after the other. -/
def annotateBranches (proven : List Nat) : List (List Statement) → Nat → List (List Statement)
  | [], _ => []
  | body :: rest, next =>
    (annotateBody proven body next).1 :: annotateBranches proven rest (next + bodyCount body)

theorem bodies_annotateArms (arms : List MatchStatementArm) (next : Nat) :
    (annotateArms proven arms next).1.map MatchStatementArm.body
      = annotateBranches proven (arms.map MatchStatementArm.body) next := by
  induction arms generalizing next with
  | nil => rfl
  | cons arm arms ih =>
    obtain ⟨variant, binding, body⟩ := arm
    simp only [annotateArms, List.map_cons, ih, MatchStatementArm.body, annotateBranches,
      annotateBody_counts proven body next]

theorem bodies_annotateSelectArms (next : Nat) :
    (annotateSelectArms proven arms next).1.map TaskSelectArm.body
      = annotateBranches proven (arms.map TaskSelectArm.body) next := by
  induction arms generalizing next with
  | nil => rfl
  | cons arm arms ih =>
    obtain ⟨operation, binding, bindingType, body⟩ := arm
    simp only [annotateSelectArms, List.map_cons, ih, TaskSelectArm.body, annotateBranches,
      annotateBody_counts proven body next]

theorem branches_annotateMode (proven : Bool) (s : Statement) :
    branches (annotateMode proven s) = branches s := by
  unfold annotateMode
  split <;> rfl

theorem branches_annotateChildren (next : Nat) :
    branches (annotateChildren proven s next).1 = annotateBranches proven (branches s) next := by
  cases s with
  | letMatch name t value enumName arms | matchOn value enumName arms =>
    simp only [annotateChildren, branches, bodies_annotateArms]
  | taskSelect arms => simp only [annotateChildren, branches, bodies_annotateSelectArms]
  | letIf name t condition a b | ifThenElse condition a b =>
    simp only [annotateChildren, branches, annotateBranches, annotateBody_counts proven a next]
  | ifLet binding t value variant a elseBody =>
    cases elseBody with
    | none => rfl
    | some b =>
      simp only [annotateChildren, branches, annotateBranches, annotateBody_counts proven a next]
  | _ => rfl

theorem branches_annotate (id : Nat) :
    branches (annotateStatement proven s id) = annotateBranches proven (branches s) (id + 1) := by
  rw [annotateStatement, branches_annotateMode, branches_annotateChildren]

theorem indexOperands_annotate (id : Nat) :
    indexOperands (annotateStatement proven s id) = indexOperands s := by
  have hmode (b : Bool) (s : Statement) : indexOperands (annotateMode b s) = indexOperands s := by
    unfold annotateMode
    split <;> rfl
  rw [annotateStatement, hmode]
  cases s with
  | ifLet binding t value variant a elseBody => cases elseBody <;> rfl
  | _ => rfl

theorem selectExpressions_annotate (next : Nat) :
    ((annotateSelectArms proven arms next).1.flatMap fun arm => selectExpressions (armOperation arm))
      = arms.flatMap fun arm => selectExpressions (armOperation arm) := by
  induction arms generalizing next with
  | nil => rfl
  | cons arm arms ih =>
    obtain ⟨operation, binding, bindingType, body⟩ := arm
    simp only [annotateSelectArms, List.flatMap_cons, ih]
    rfl

theorem expressions_annotate (id : Nat) :
    expressions (annotateStatement proven s id) = expressions s := by
  have hmode (b : Bool) (s : Statement) : expressions (annotateMode b s) = expressions s := by
    unfold annotateMode
    split <;> rfl
  rw [annotateStatement, hmode]
  cases s with
  | taskSelect arms => exact selectExpressions_annotate proven arms _
  | ifLet binding t value variant a elseBody => cases elseBody <;> rfl
  | _ => rfl

theorem storeMode_annotateChildren (next : Nat) :
    storeMode (annotateChildren proven s next).1 = storeMode s := by
  cases s with
  | ifLet binding t value variant a elseBody => cases elseBody <;> rfl
  | _ => rfl

theorem storeMode_annotate (id : Nat) :
    storeMode (annotateStatement proven s id)
      = (storeMode s).map fun mode => if id ∈ proven then .checkedUnique else mode := by
  have hmode (b : Bool) (s : Statement) : storeMode (annotateMode b s)
      = (storeMode s).map fun mode => if b then .checkedUnique else mode := by
    cases s with
    | assign name value => cases value <;> rfl
    | _ => rfl
  rw [annotateStatement, hmode, storeMode_annotateChildren]
  simp

/-- The annotation leaves the operands of indexed assignments as they are. -/
theorem operandModes_annotate :
    (∀ body next, bodyOperandModes (annotateBody proven body next).1 = bodyOperandModes body) ∧
    ∀ bodies next, (annotateBranches proven bodies next).flatMap bodyOperandModes
      = bodies.flatMap bodyOperandModes := by
  refine traverse_induct (fun _ => rfl) (fun s rest hs hrest next => ?_) (fun _ => rfl)
    fun body rest hbody hrest next => ?_
  · rw [annotateBody_cons, bodyOperandModes, bodyOperandModes, hrest, statementOperandModes_eq,
      statementOperandModes_eq, indexOperands_annotate, branches_annotate, hs]
  · rw [annotateBranches, List.flatMap_cons, List.flatMap_cons, hbody, hrest]

theorem count_annotate :
    (∀ body next, bodyCount (annotateBody proven body next).1 = bodyCount body) ∧
    ∀ bodies next, branchesCount (annotateBranches proven bodies next) = branchesCount bodies := by
  refine traverse_induct (fun _ => rfl) (fun s rest hs hrest next => ?_) (fun _ => rfl)
    fun body rest hbody hrest next => ?_
  · rw [annotateBody_cons, bodyCount, bodyCount, hrest, statementCount_eq, statementCount_eq,
      branches_annotate, hs]
  · simp only [branchesCount] at hrest ⊢
    simp only [annotateBranches, List.map_cons, List.sum_cons, hrest, hbody]

theorem statementCount_annotate (id : Nat) :
    statementCount (annotateStatement proven s id) = statementCount s := by
  rw [statementCount_eq, branches_annotate, (count_annotate proven).2, ← statementCount_eq]

/-- A body of an annotated statement is the annotation of one of its bodies, numbered alike. -/
theorem annotateBranches_split (bodies : List (List Statement)) :
    ∀ next before body after, annotateBranches proven bodies next = before ++ body :: after →
      ∃ before₀ body₀ after₀, bodies = before₀ ++ body₀ :: after₀ ∧
        branchesCount before = branchesCount before₀ ∧
        body = (annotateBody proven body₀ (next + branchesCount before₀)).1 := by
  induction bodies with
  | nil => intro next before body after h; simp [annotateBranches] at h
  | cons first bodies ih =>
    intro next before body after h
    rw [annotateBranches] at h
    cases before with
    | nil =>
      obtain ⟨rfl, -⟩ := List.cons.inj h
      exact ⟨[], first, bodies, rfl, rfl, rfl⟩
    | cons b before =>
      rw [List.cons_append] at h
      obtain ⟨hb, htail⟩ := List.cons.inj h
      subst hb
      obtain ⟨before₀, body₀, after₀, rfl, hcount, rfl⟩ := ih _ _ _ _ htail
      refine ⟨first :: before₀, body₀, after₀, rfl, ?_, ?_⟩
      · simp only [branchesCount, List.map_cons, List.sum_cons, (count_annotate proven).1] at hcount ⊢
        omega
      · simp only [branchesCount, List.map_cons, List.sum_cons, Nat.add_assoc]

/-- **What the annotation changes.**  A store of the annotated body is a store of the body with the
same mode, or it is itself a proven statement and unique. -/
theorem StoreAt.of_annotate {proven : List Nat} {mode : ArrayMutationMode} (body : List Statement)
    {next : Nat} {site : Option Nat} (h : StoreAt (annotateBody proven body next).1 next site mode) :
    StoreAt body next site mode ∨ ∃ i ∈ proven, site = some i ∧ mode = .checkedUnique := by
  induction body using body_induct generalizing next with
  | nil => cases h
  | cons s rest hs hrest =>
    rw [annotateBody_cons] at h
    cases h with
    | own h =>
      rw [storeMode_annotate, Option.map_eq_some_iff] at h
      obtain ⟨mode₀, hmode, rfl⟩ := h
      split_ifs with hproven
      · exact .inr ⟨next, hproven, rfl, rfl⟩
      · exact .inl (.own hmode)
    | inside h =>
      rw [expressions_annotate] at h
      exact .inl (.inside h)
    | nested before body after hb h =>
      rw [branches_annotate] at hb
      obtain ⟨before₀, body₀, after₀, hsplit, hcount, rfl⟩ := annotateBranches_split _ _ _ _ _ _ hb
      rw [hcount] at h
      have hmem : body₀ ∈ branches s := by simp [hsplit]
      exact (hs body₀ hmem h).imp (.nested before₀ body₀ after₀ hsplit) id
    | later h =>
      rw [statementCount_annotate] at h
      exact (hrest h).imp .later id

/-! ## Independence of the modes -/

/-- The statements of a function whose store `optimize_release_program` proves unique. -/
def provenStatements (function : Function) : List Nat :=
  if function.isSuspend then []
  else
    let function := { function with body := resetBody function.body }
    let eligible := eligibleFlatArrayBindings function
    (proveUniqueDetaches (buildCfg function eligible) eligible).2

theorem operandModes_setMode (p : Program) :
    operandModes (setModeProgram mode p) = (operandModes p).map fun _ => mode := by
  simp only [operandModes, setModeProgram, List.flatMap_map, List.map_flatMap, bodyOperandModes_setMode]

theorem operandModes_optimize (p : Program) :
    operandModes (optimizeReleaseProgram p).1 = operandModes p := by
  have hfunction : ∀ function : Function,
      bodyOperandModes (optimizeFunction { function with body := resetBody function.body }).1.body
        = bodyOperandModes function.body := by
    intro function
    unfold optimizeFunction
    split
    · exact bodyOperandModes_reset _
    · exact ((operandModes_annotate _).1 _ _).trans (bodyOperandModes_reset _)
  simp only [operandModes, optimizeReleaseProgram, resetMutationModes, List.map_map, List.flatMap_map,
    Function.comp_def, hfunction]

theorem resetMutationModes_eq (p : Program) (h : operandModes p = []) :
    resetMutationModes p = setModeProgram .checkedCow p := by
  unfold resetMutationModes setModeProgram
  congr 1
  refine List.map_congr_left fun function hmem => ?_
  rw [resetBody_eq _ (List.flatMap_eq_nil_iff.1 h function hmem)]

theorem setModeAll_setModeAll (m m' : ArrayMutationMode) (es : List ValueExpr) :
    setModeAll m' (setModeAll m es) = setModeAll m' es := by
  simp only [setModeAll_eq, List.map_map]
  exact List.map_congr_left fun e _ => setMode_setMode m m' e

theorem setModeStatementArms_setMode {m m' : ArrayMutationMode} {arms : List MatchStatementArm}
    (h : ∀ body ∈ arms.map MatchStatementArm.body,
      setModeBody m' (setModeBody m body) = setModeBody m' body) :
    setModeStatementArms m' (setModeStatementArms m arms) = setModeStatementArms m' arms := by
  induction arms with
  | nil => rfl
  | cons arm arms ih =>
    obtain ⟨variant, binding, body⟩ := arm
    simp only [setModeStatementArms, ih fun b hb => h b (List.mem_cons_of_mem _ hb),
      h body (by simp [MatchStatementArm.body])]

theorem setModeSelectArms_setMode {m m' : ArrayMutationMode} {arms : List TaskSelectArm}
    (h : ∀ body ∈ arms.map TaskSelectArm.body,
      setModeBody m' (setModeBody m body) = setModeBody m' body) :
    setModeSelectArms m' (setModeSelectArms m arms) = setModeSelectArms m' arms := by
  induction arms with
  | nil => rfl
  | cons arm arms ih =>
    obtain ⟨operation, binding, bindingType, body⟩ := arm
    have hoperation : setModeSelectOperation m' (setModeSelectOperation m operation)
        = setModeSelectOperation m' operation := by
      cases operation <;> simp only [setModeSelectOperation, setMode_setMode]
    simp only [setModeSelectArms, ih fun b hb => h b (List.mem_cons_of_mem _ hb),
      h body (by simp [TaskSelectArm.body]), hoperation]

theorem setModeBody_setModeBody (m m' : ArrayMutationMode) (body : List Statement) :
    setModeBody m' (setModeBody m body) = setModeBody m' body := by
  induction body using body_induct with
  | nil => rfl
  | cons s rest hs hrest =>
    rw [setModeBody, setModeBody, setModeBody, hrest]
    congr 1
    cases s with
    | letMatch name t value enumName arms | matchOn value enumName arms =>
      simp only [setModeStatement, setMode_setMode, setModeStatementArms_setMode hs]
    | taskSelect arms => simp only [setModeStatement, setModeSelectArms_setMode hs]
    | letIf name t condition a b | ifThenElse condition a b =>
      simp only [setModeStatement, setMode_setMode, hs a (by simp [branches]), hs b (by simp [branches])]
    | ifLet binding t value variant a elseBody =>
      cases elseBody with
      | none => simp only [setModeStatement, setMode_setMode, hs a (by simp [branches])]
      | some b =>
        simp only [setModeStatement, setMode_setMode, hs a (by simp [branches]), hs b (by simp [branches])]
    | letElse binding t value variant a =>
      simp only [setModeStatement, setMode_setMode, hs a (by simp [branches])]
    | loop kind a =>
      rw [setModeStatement, setModeStatement, setModeStatement, hs a (by simp [branches])]
      cases kind <;> simp only [setModeLoopKind, setMode_setMode]
    | «defer» call => cases call <;> simp only [setModeStatement, setModeDeferred, setMode_setMode]
    | returnValue value => cases value <;> simp only [setModeStatement, setMode_setMode]
    | arrayIndexAssign | questionLet | questionReturn =>
      simp only [setModeStatement, setMode_setMode, setModeAll_setModeAll]
    | _ => simp only [setModeStatement, setMode_setMode]

theorem sameUpToModes_setMode (p : Program) :
    SameUpToModes p (setModeProgram mode p) := by
  simp only [SameUpToModes, setModeProgram, List.map_map, Function.comp_def, setModeBody_setModeBody]

theorem proven_of_storeAt {function : Function} (h : bodyOperandModes function.body = [])
    {site : Option Nat} (hstore : StoreAt
      (optimizeFunction { function with body := resetBody function.body }).1.body 0 site
        .checkedUnique) :
    ∃ id ∈ provenStatements function, site = some id := by
  have hreset : ¬ StoreAt (resetBody function.body) 0 site .checkedUnique := by
    rw [resetBody_eq _ h]
    exact fun hstore => nomatch StoreAt.setMode function.body hstore
  unfold provenStatements
  unfold optimizeFunction at hstore
  split_ifs at hstore ⊢ with hsuspend
  · exact absurd hstore hreset
  · rcases StoreAt.of_annotate _ hstore with hstore | ⟨id, hid, rfl, -⟩
    · exact absurd hstore hreset
    · exact ⟨id, hid, rfl⟩

/-- **The result of the optimiser does not depend on the modes it is given, and only proven stores
are unique in it, exactly when** no operand of an indexed assignment holds a store. -/
theorem optimizeReleaseProgram_independent_iff (p : Program) :
    ((∀ q, SameUpToModes p q → optimizeReleaseProgram q = optimizeReleaseProgram p) ∧
      ∀ (i : Nat) (function output : Function), p.functions[i]? = some function →
        (optimizeReleaseProgram p).1.functions[i]? = some output →
        ∀ site, StoreAt output.body 0 site .checkedUnique →
          ∃ id ∈ provenStatements function, site = some id) ↔
    operandModes p = [] := by
  constructor
  · rintro ⟨hsame, -⟩
    have hset (mode) : optimizeReleaseProgram (setModeProgram mode p) = optimizeReleaseProgram p := hsame _ (sameUpToModes_setMode mode p)
    have hmodes (mode) : (operandModes p).map (fun _ => mode) = operandModes p := by
      rw [← operandModes_setMode, ← operandModes_optimize, hset, operandModes_optimize]
    have hunique := (hmodes .checkedCow).trans (hmodes .checkedUnique).symm
    cases hmodes : operandModes p with
    | nil => rfl
    | cons mode modes => simp [hmodes] at hunique
  · intro h
    constructor
    · intro q hq
      have hq' : operandModes q = [] := by
        have := congrArg operandModes hq
        rw [operandModes_setMode, operandModes_setMode, h] at this
        simpa using this.symm
      unfold optimizeReleaseProgram
      rw [resetMutationModes_eq p h, resetMutationModes_eq q hq', hq]
    · intro i function output hfunction houtput site hstore
      simp only [optimizeReleaseProgram, resetMutationModes, List.map_map, List.getElem?_map,
        hfunction, Option.map_some, Option.some_inj, Function.comp_apply] at houtput
      subst houtput
      exact proven_of_storeAt (List.flatMap_eq_nil_iff.1 h function (List.mem_of_getElem? hfunction))
        hstore

/-- `grid[0] = row.set(1, 2)`, with a mode for the inner store. -/
def gridStore (mode : ArrayMutationMode) : Function where
  package := "app"
  name := "main"
  isSuspend := false
  params := []
  body := [.arrayIndexAssign "grid" [.literal (.int 0)] [.array (.array .int)]
    (.arraySet "row" (.literal (.int 1)) (.literal (.int 2)) .int mode) .checkedCow]

/-- The mode of a store in the operands of an indexed assignment is still there in the result. -/
theorem gridStore_not_independent :
    ¬ ∀ p q, SameUpToModes p q → optimizeReleaseProgram p = optimizeReleaseProgram q := by
  intro h
  have hsame := h ⟨[gridStore .checkedCow]⟩ ⟨[gridStore .checkedUnique]⟩ rfl
  have hmodes := congrArg (fun result => operandModes result.1) hsame
  rw [operandModes_optimize, operandModes_optimize] at hmodes
  cases hmodes

end Nomo.Mir
