import Nomo.Ir.Syntax

/-!
# Mutation modes

`modes` lists the mutation modes of the stores in a piece of syntax, at every depth, and `setMode`
gives all of them one value.  Two pieces of syntax are equal except for their modes when `setMode`
makes them equal (`Program.SameUpToModes`).

Facts about expressions are proved over `childExpressions` by `expr_induct`, so that the forms of
expressions are told apart once.
-/

namespace Nomo.Ir

open Nomo.Lib

/-! ## Expressions as trees -/

/-- The value of a match arm. -/
def MatchValueArm.value : MatchValueArm → ValueExpr
  | ⟨_, _, value⟩ => value

theorem childExpressions_matchOn (value : ValueExpr) (arms : List MatchValueArm) :
    (ValueExpr.matchOn value arms).childExpressions = value :: arms.map MatchValueArm.value := rfl

theorem sizeOf_matchValues (arms : List MatchValueArm) (e : ValueExpr)
    (h : e ∈ arms.map MatchValueArm.value) : sizeOf e < sizeOf arms := by
  induction arms with
  | nil => simp at h
  | cons arm arms ih =>
    obtain ⟨variant, binding, value⟩ := arm
    rcases List.mem_cons.1 h with rfl | h
    · simp
      omega
    · have := ih h
      simp
      omega

variable (mode : ArrayMutationMode) (e : ValueExpr)

theorem sizeOf_childExpressions (c : ValueExpr) (h : c ∈ e.childExpressions) :
    sizeOf c < sizeOf e := by
  cases e with
  | builtin op args | call name args | arrayLiteral args t | structLiteral t names args =>
    have : sizeOf c < sizeOf args := List.sizeOf_lt_of_mem h
    simp
    omega
  | matchOn value arms =>
    rcases List.mem_cons.1 h with rfl | h
    · simp
      omega
    · have := sizeOf_matchValues arms c h
      simp
      omega
  | enumVariant enumName args variant payload =>
    cases payload with
    | none => simp [ValueExpr.childExpressions] at h
    | some payload =>
      obtain rfl : c = payload := by simpa [ValueExpr.childExpressions] using h
      simp
      omega
  | literal | «variable» | functionRef | mutBorrow | arrayNew | arrayPop | arrayClear
  | fieldAccess => simp [ValueExpr.childExpressions] at h
  | unary | cast | combine | arrayLen | arrayIter | arrayRemove | arrayPush
  | enumPayloadFieldAccess | enumPayload | panic =>
    obtain rfl := List.mem_singleton.1 h
    simp
    try omega
  | binary | unwrapOr | arrayIndex | arrayGet | arraySet | arrayInsert =>
    rcases List.mem_cons.1 h with rfl | h
    · simp
      omega
    · obtain rfl := List.mem_singleton.1 h
      simp
      try omega
  | ifThenElse condition thenBranch elseBranch =>
    rcases List.mem_cons.1 h with rfl | h
    · simp
      omega
    rcases List.mem_cons.1 h with rfl | h
    · simp
      omega
    · obtain rfl := List.mem_singleton.1 h
      simp

theorem expr_induct {P : ValueExpr → Prop}
    (step : ∀ e, (∀ c ∈ e.childExpressions, P c) → P e) : ∀ e, P e := fun e =>
  step e fun c h => by
    have := sizeOf_childExpressions e c h
    exact expr_induct step c
termination_by e => sizeOf e

/-! ## The modes of an expression -/

/-- The mode of an expression that is itself a store. -/
def ValueExpr.ownMode : ValueExpr → List ArrayMutationMode
  | .arraySet _ _ _ _ mode => [mode]
  | _ => []

mutual

/-- The modes of all stores in an expression. -/
def ValueExpr.modes : ValueExpr → List ArrayMutationMode
  | .arraySet _ index value _ mode => mode :: (index.modes ++ value.modes)
  | .literal _ | .functionRef _ | .arrayNew _ | .variable _ | .mutBorrow _ | .fieldAccess ..
  | .arrayPop .. | .arrayClear .. | .enumVariant _ _ _ none => []
  | .binary left _ right _ | .unwrapOr _ left right | .arrayIndex left right _
  | .arrayGet left right _ | .arrayInsert _ left right _ => left.modes ++ right.modes
  | .unary _ child | .cast child _ | .combine _ child _ | .arrayLen child | .arrayIter child _
  | .enumPayload child _ | .enumPayloadFieldAccess child _ _ | .panic child _
  | .arrayRemove _ child _ | .arrayPush _ child _ | .enumVariant _ _ _ (some child) => child.modes
  | .builtin _ args | .call _ args | .arrayLiteral args _ | .structLiteral _ _ args =>
    modesAll args
  | .matchOn value arms => value.modes ++ modesArms arms
  | .ifThenElse condition thenBranch elseBranch =>
    condition.modes ++ (thenBranch.modes ++ elseBranch.modes)

/-- The modes of all stores in a list of expressions. -/
def modesAll : List ValueExpr → List ArrayMutationMode
  | [] => []
  | e :: es => e.modes ++ modesAll es

/-- The modes of all stores in the values of match arms. -/
def modesArms : List MatchValueArm → List ArrayMutationMode
  | [] => []
  | ⟨_, _, value⟩ :: arms => value.modes ++ modesArms arms

end

mutual

/-- An expression with the mode of every store replaced. -/
def ValueExpr.setMode (mode : ArrayMutationMode) : ValueExpr → ValueExpr
  | .arraySet array index value elementType _ =>
    .arraySet array (index.setMode mode) (value.setMode mode) elementType mode
  | .literal value => .literal value
  | .variable name => .variable name
  | .functionRef name => .functionRef name
  | .mutBorrow path => .mutBorrow path
  | .arrayNew elementType => .arrayNew elementType
  | .arrayPop array elementType => .arrayPop array elementType
  | .arrayClear array elementType => .arrayClear array elementType
  | .fieldAccess base field => .fieldAccess base field
  | .binary left op right valueType =>
    .binary (left.setMode mode) op (right.setMode mode) valueType
  | .unary op expr => .unary op (expr.setMode mode)
  | .cast expr targetType => .cast (expr.setMode mode) targetType
  | .builtin op args => .builtin op (setModeAll mode args)
  | .call name args => .call name (setModeAll mode args)
  | .combine combinator operand converter => .combine combinator (operand.setMode mode) converter
  | .unwrapOr carrier operand default =>
    .unwrapOr carrier (operand.setMode mode) (default.setMode mode)
  | .arrayLiteral elements elementType => .arrayLiteral (setModeAll mode elements) elementType
  | .arrayIndex array index elementType =>
    .arrayIndex (array.setMode mode) (index.setMode mode) elementType
  | .arrayLen array => .arrayLen (array.setMode mode)
  | .arrayIter array elementType => .arrayIter (array.setMode mode) elementType
  | .arrayGet array index elementType =>
    .arrayGet (array.setMode mode) (index.setMode mode) elementType
  | .arrayRemove array index elementType => .arrayRemove array (index.setMode mode) elementType
  | .arrayPush array value elementType => .arrayPush array (value.setMode mode) elementType
  | .arrayInsert array index value elementType =>
    .arrayInsert array (index.setMode mode) (value.setMode mode) elementType
  | .structLiteral typeName fieldNames fieldValues =>
    .structLiteral typeName fieldNames (setModeAll mode fieldValues)
  | .enumPayloadFieldAccess value variant field =>
    .enumPayloadFieldAccess (value.setMode mode) variant field
  | .enumVariant enumName enumArgs variant none => .enumVariant enumName enumArgs variant none
  | .enumVariant enumName enumArgs variant (some payload) =>
    .enumVariant enumName enumArgs variant (some (payload.setMode mode))
  | .enumPayload value variant => .enumPayload (value.setMode mode) variant
  | .matchOn value arms => .matchOn (value.setMode mode) (setModeArms mode arms)
  | .ifThenElse condition thenBranch elseBranch =>
    .ifThenElse (condition.setMode mode) (thenBranch.setMode mode) (elseBranch.setMode mode)
  | .panic message fallbackType => .panic (message.setMode mode) fallbackType

/-- A list of expressions with the mode of every store replaced. -/
def setModeAll (mode : ArrayMutationMode) : List ValueExpr → List ValueExpr
  | [] => []
  | e :: es => e.setMode mode :: setModeAll mode es

/-- Match arms with the mode of every store in their values replaced. -/
def setModeArms (mode : ArrayMutationMode) : List MatchValueArm → List MatchValueArm
  | [] => []
  | ⟨variant, binding, value⟩ :: arms =>
    ⟨variant, binding, value.setMode mode⟩ :: setModeArms mode arms

end

attribute [local simp] ValueExpr.modes ValueExpr.setMode ValueExpr.ownMode
  ValueExpr.childExpressions

theorem modesAll_eq (es : List ValueExpr) : modesAll es = es.flatMap ValueExpr.modes :=
  flatMap_of_cons rfl (fun _ _ => rfl) es

theorem modesArms_eq (arms : List MatchValueArm) :
    modesArms arms = (arms.map MatchValueArm.value).flatMap ValueExpr.modes := by
  rw [List.flatMap_map]
  exact flatMap_of_cons rfl (fun ⟨_, _, _⟩ _ => rfl) arms

theorem setModeAll_eq (es : List ValueExpr) :
    setModeAll mode es = es.map (ValueExpr.setMode mode) :=
  map_of_cons rfl (fun _ _ => rfl) es

theorem values_setModeArms (arms : List MatchValueArm) :
    (setModeArms mode arms).map MatchValueArm.value
      = (arms.map MatchValueArm.value).map (ValueExpr.setMode mode) := by
  rw [List.map_map]
  exact map_of_cons (f := fun arms => (setModeArms mode arms).map _) rfl (fun ⟨_, _, _⟩ _ => rfl) arms

theorem modes_eq :
    e.modes = e.ownMode ++ e.childExpressions.flatMap ValueExpr.modes := by
  cases e with
  | enumVariant enumName args variant payload => cases payload <;> simp
  | matchOn value arms =>
    simp [-ValueExpr.childExpressions, childExpressions_matchOn, modesArms_eq]
  | _ => simp [modesAll_eq]

theorem childExpressions_setMode :
    (e.setMode mode).childExpressions = e.childExpressions.map (ValueExpr.setMode mode) := by
  cases e with
  | enumVariant enumName args variant payload => cases payload <;> simp
  | matchOn value arms =>
    simp only [ValueExpr.setMode, childExpressions_matchOn, values_setModeArms, List.map_cons]
  | _ => simp [setModeAll_eq]

theorem ownMode_setMode :
    (e.setMode mode).ownMode = e.ownMode.map fun _ => mode := by
  cases e with
  | enumVariant enumName args variant payload => cases payload <;> rfl
  | _ => rfl

theorem modes_setMode :
    (e.setMode mode).modes = e.modes.map fun _ => mode := by
  induction e using expr_induct with
  | step e ih =>
    rw [modes_eq (e.setMode mode), modes_eq e, ownMode_setMode, childExpressions_setMode,
      List.map_append, List.map_flatMap, List.flatMap_map]
    congr 1
    exact List.flatMap_congr fun c hc => ih c hc

theorem setModeArms_congr {m m' : ArrayMutationMode} {arms : List MatchValueArm}
    (h : ∀ c ∈ arms.map MatchValueArm.value, (c.setMode m).setMode m' = c.setMode m') :
    setModeArms m' (setModeArms m arms) = setModeArms m' arms := by
  induction arms with
  | nil => rfl
  | cons arm arms ih =>
    obtain ⟨variant, binding, value⟩ := arm
    simp only [setModeArms, ih fun c hc => h c (List.mem_cons_of_mem _ hc),
      h value (by simp [MatchValueArm.value])]

theorem setMode_setMode (m m' : ArrayMutationMode) (e : ValueExpr) :
    (e.setMode m).setMode m' = e.setMode m' := by
  induction e using expr_induct with
  | step e ih =>
    cases e with
    | builtin op args | call name args | arrayLiteral args t | structLiteral t names args =>
      simp only [ValueExpr.setMode, setModeAll_eq, List.map_map]
      congr 1
      exact List.map_congr_left ih
    | matchOn value arms =>
      simp only [ValueExpr.setMode, ih value (by simp),
        setModeArms_congr fun c hc => ih c (List.mem_cons_of_mem _ hc)]
    | enumVariant enumName args variant payload =>
      cases payload with
      | none => rfl
      | some payload =>
        simp only [ValueExpr.setMode, ih payload (by simp)]
    | _ => simp_all

theorem setModeArms_fixed {m : ArrayMutationMode} {arms : List MatchValueArm}
    (h : ∀ c ∈ arms.map MatchValueArm.value, c.setMode m = c) : setModeArms m arms = arms := by
  induction arms with
  | nil => rfl
  | cons arm arms ih =>
    obtain ⟨variant, binding, value⟩ := arm
    simp only [setModeArms, ih fun c hc => h c (List.mem_cons_of_mem _ hc),
      h value (by simp [MatchValueArm.value])]

theorem setMode_of_children {m : ArrayMutationMode} (hown : ∀ m' ∈ e.ownMode, m' = m)
    (h : ∀ c ∈ e.childExpressions, c.setMode m = c) : e.setMode m = e := by
  cases e with
  | builtin op args | call name args | arrayLiteral args t | structLiteral t names args =>
    simp only [ValueExpr.setMode, setModeAll_eq]
    congr 1
    exact (List.map_congr_left h).trans (List.map_id _)
  | matchOn value arms =>
    simp only [ValueExpr.setMode, h value (by simp),
      setModeArms_fixed fun c hc => h c (List.mem_cons_of_mem _ hc)]
  | enumVariant enumName args variant payload =>
    cases payload with
    | none => rfl
    | some payload =>
      simp only [ValueExpr.setMode, h payload (by simp)]
  | _ => simp_all

theorem setMode_of_modes {m : ArrayMutationMode} (h : ∀ m' ∈ e.modes, m' = m) :
    e.setMode m = e := by
  induction e using expr_induct with
  | step e ih =>
    rw [modes_eq] at h
    refine setMode_of_children e (fun m' hm => h m' (List.mem_append_left _ hm)) fun c hc => ih c hc ?_
    exact fun m' hm => h m' (List.mem_append_right _ (List.mem_flatMap.2 ⟨c, hc, hm⟩))

end Nomo.Ir
