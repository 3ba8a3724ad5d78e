import Nomo.Ir.Syntax

/-!
# What an expression touches

`ValueExpr.touched` lists the variables an expression copies, borrows or changes.  An array that is
only read by length or by index is not among them: such a read takes no reference.

`checkedCow` says that every store of a piece of syntax is a `checkedCow` one, as the front end
emits them (`nomo_compiler/src/expressions/expression_helpers.rs:596`,
`nomo_compiler/src/statements/statement_assignments.rs:104–110`).
-/

namespace Nomo.Ir

mutual

/-- The variables an expression copies, borrows or changes. -/
def ValueExpr.touched : ValueExpr → List String
  | .literal _ | .functionRef _ | .arrayNew _ => []
  | .variable name => [name]
  | .mutBorrow path => path.take 1
  | .fieldAccess base _ => [base]
  | .arrayIndex (.variable _) index _ | .arrayGet (.variable _) index _ => index.touched
  | .arrayLen (.variable _) => []
  | .binary left _ right _ | .unwrapOr _ left right | .arrayIndex left right _
  | .arrayGet left right _ => left.touched ++ right.touched
  | .unary _ child | .cast child _ | .combine _ child _ | .arrayLen child | .arrayIter child _
  | .enumPayload child _ | .enumPayloadFieldAccess child _ _ | .panic child _ => child.touched
  | .builtin _ args | .call _ args | .arrayLiteral args _ | .structLiteral _ _ args =>
    touchedAll args
  | .arrayPop array _ | .arrayClear array _ => [array]
  | .arrayRemove array child _ | .arrayPush array child _ => child.touched ++ [array]
  | .arraySet array index value _ _ | .arrayInsert array index value _ =>
    index.touched ++ (value.touched ++ [array])
  | .enumVariant _ _ _ none => []
  | .enumVariant _ _ _ (some payload) => payload.touched
  | .matchOn value arms => value.touched ++ touchedArms arms
  | .ifThenElse condition thenBranch elseBranch =>
    condition.touched ++ (thenBranch.touched ++ elseBranch.touched)

/-- The variables touched by a list of expressions. -/
def touchedAll : List ValueExpr → List String
  | [] => []
  | e :: es => e.touched ++ touchedAll es

/-- The variables touched by the values of match arms. -/
def touchedArms : List MatchValueArm → List String
  | [] => []
  | ⟨_, _, value⟩ :: arms => value.touched ++ touchedArms arms

end

theorem touched_arrayIndex (array index : ValueExpr) (t : ValueType) :
    (ValueExpr.arrayIndex array index t).touched
      = (ValueExpr.arrayLen array).touched ++ index.touched := by
  cases array <;> rfl

theorem touched_arrayGet (array index : ValueExpr) (t : ValueType) :
    (ValueExpr.arrayGet array index t).touched
      = (ValueExpr.arrayLen array).touched ++ index.touched := by
  cases array <;> rfl

mutual

/-- Every store in an expression is a `checkedCow` one. -/
def ValueExpr.checkedCow : ValueExpr → Bool
  | .arraySet _ index value _ mode =>
    (mode == .checkedCow) && (index.checkedCow && value.checkedCow)
  | .literal _ | .functionRef _ | .arrayNew _ | .variable _ | .mutBorrow _ | .fieldAccess ..
  | .arrayPop .. | .arrayClear .. | .enumVariant _ _ _ none => true
  | .binary left _ right _ | .unwrapOr _ left right | .arrayIndex left right _
  | .arrayGet left right _ | .arrayInsert _ left right _ => left.checkedCow && right.checkedCow
  | .unary _ child | .cast child _ | .combine _ child _ | .arrayLen child | .arrayIter child _
  | .enumPayload child _ | .enumPayloadFieldAccess child _ _ | .panic child _
  | .arrayRemove _ child _ | .arrayPush _ child _ | .enumVariant _ _ _ (some child) =>
    child.checkedCow
  | .builtin _ args | .call _ args | .arrayLiteral args _ | .structLiteral _ _ args =>
    checkedCowAll args
  | .matchOn value arms => value.checkedCow && checkedCowArms arms
  | .ifThenElse condition thenBranch elseBranch =>
    condition.checkedCow && (thenBranch.checkedCow && elseBranch.checkedCow)

/-- Every store in a list of expressions is a `checkedCow` one. -/
def checkedCowAll : List ValueExpr → Bool
  | [] => true
  | e :: es => e.checkedCow && checkedCowAll es

/-- Every store in the values of match arms is a `checkedCow` one. -/
def checkedCowArms : List MatchValueArm → Bool
  | [] => true
  | ⟨_, _, value⟩ :: arms => value.checkedCow && checkedCowArms arms

end

/-- Every store in the header of a loop is a `checkedCow` one. -/
def LoopKind.checkedCow : LoopKind → Bool
  | .infinite => true
  | .whileTrue condition => condition.checkedCow
  | .cStyle _ _ initializer condition update =>
    initializer.checkedCow && (condition.checkedCow && update.checkedCow)
  | .iterate _ _ iterable => iterable.checkedCow

mutual

/-- Every store in a statement is a `checkedCow` one. -/
def Statement.checkedCow : Statement → Bool
  | .arrayIndexAssign _ indices _ value mode =>
    (mode == .checkedCow) && (checkedCowAll indices && value.checkedCow)
  | .letBind _ _ value | .assign _ value | .assignField _ _ _ value | .eprintln value
  | .eprint value | .println value | .print value | .panic value | .expr value
  | .returnValue (some value) => value.checkedCow
  | .letIf _ _ condition body elseBody | .ifThenElse condition body elseBody =>
    condition.checkedCow && (bodyCheckedCow body && bodyCheckedCow elseBody)
  | .letMatch _ _ value _ arms | .matchOn value _ arms => value.checkedCow && armsCheckedCow arms
  | .questionLet _ _ _ value actions | .questionReturn _ _ value actions =>
    value.checkedCow && checkedCowAll actions
  | .letElse _ _ value _ elseBody => value.checkedCow && bodyCheckedCow elseBody
  | .ifLet _ _ value _ body none => value.checkedCow && bodyCheckedCow body
  | .ifLet _ _ value _ body (some elseBody) =>
    value.checkedCow && (bodyCheckedCow body && bodyCheckedCow elseBody)
  | .loop kind body => kind.checkedCow && bodyCheckedCow body
  | .defer call => call.operand.checkedCow
  | .taskSelect _ | .breakLoop | .continueLoop | .returnValue none => true

/-- Every store in a body is a `checkedCow` one. -/
def bodyCheckedCow : List Statement → Bool
  | [] => true
  | statement :: rest => statement.checkedCow && bodyCheckedCow rest

/-- Every store in the bodies of match arms is a `checkedCow` one. -/
def armsCheckedCow : List MatchStatementArm → Bool
  | [] => true
  | ⟨_, _, body⟩ :: arms => bodyCheckedCow body && armsCheckedCow arms

end

@[simp] theorem Statement.checkedCow_loop (kind : LoopKind) (body : List Statement) :
    (Statement.loop kind body).checkedCow = (kind.checkedCow && bodyCheckedCow body) := by
  simp only [Statement.checkedCow]

/-- Every store in a program is a `checkedCow` one.  Select arms are not looked at: no run executes
one. -/
def Program.checkedCow (program : Program) : Bool :=
  program.functions.all fun function => bodyCheckedCow function.body

end Nomo.Ir
