import Nomo.Mir.Optimize
import Nomo.Ir.Touched

/-!
# What the ownership operations claim

The operations of a statement change the state of the tracked arrays, and only `freshArray` and
`cowDetach` can make an array `unique`.  For every other operation an array that is `unique`
afterwards was so before (`Weak`), and every array that an expression copies, borrows or changes is
taken out of the state `unique` by some operation (`Clears`).  A list of operations that does both
for the variables `xs` is `Quiet` on `xs`.

`assignOperations` is the one place where arrays become `unique`; `assign_cases` lists its outcomes.
-/

namespace Nomo.Mir

open Nomo.Ir

/-! ## States -/

/-- The analysis claims that an array has a single reference. -/
def Unique (state : StateMap) (x : String) : Prop := state.state? x = some .unique

namespace StateMap

theorem state?_insert (state : StateMap) (x y : String) (ownership : OwnershipState) :
    (state.insert x ownership).state? y = if y = x then some ownership else state.state? y := by
  induction state with
  | nil =>
    by_cases hy : y = x
    · simp [insert, state?, hy]
    · have hb : (y == x) = false := by simpa using hy
      simp [insert, state?, List.lookup, hy, hb]
  | cons e state ih =>
    obtain ⟨n, o⟩ := e
    unfold insert
    by_cases hx : x = n
    · subst hx
      rw [if_pos rfl]
      by_cases hy : y = x
      · simp [state?, hy]
      · have hb : (y == x) = false := by simpa using hy
        simp [state?, List.lookup, hy, hb]
    · rw [if_neg hx]
      by_cases hn : y = n
      · subst hn
        rw [if_neg (Ne.symm hx)]
        simp [state?]
      · have hb : (y == n) = false := by simpa using hn
        simpa [state?, List.lookup, hb] using ih

theorem unique_insert (state : StateMap) (x y : String) :
    Unique (state.insert x .unique) y ↔ y = x ∨ Unique state y := by
  unfold Unique
  rw [state?_insert]
  by_cases hy : y = x <;> simp [hy]

theorem unique_insert_other (state : StateMap) (x y : String) (ownership : OwnershipState)
    (ho : ownership ≠ .unique) :
    Unique (state.insert x ownership) y ↔ y ≠ x ∧ Unique state y := by
  unfold Unique
  rw [state?_insert]
  by_cases hy : y = x <;> simp [hy, ho]

theorem unique_insertAll (state : StateMap) (xs : List String) (y : String)
    (ownership : OwnershipState) (ho : ownership ≠ .unique) :
    Unique (state.insertAll xs ownership) y ↔ y ∉ xs ∧ Unique state y := by
  induction xs generalizing state with
  | nil => simp [insertAll]
  | cons x xs ih =>
    have := ih (state.insert x ownership)
    rw [unique_insert_other state x y ownership ho] at this
    simp only [insertAll, List.foldl_cons] at this ⊢
    rw [this]
    simp only [List.mem_cons]
    tauto

theorem not_unique_forget (state : StateMap) (y : String) :
    ¬ Unique (state.map fun (name, _) => (name, OwnershipState.unknown)) y := by
  unfold Unique
  induction state with
  | nil => simp [state?]
  | cons e state ih =>
    obtain ⟨n, o⟩ := e
    by_cases hn : y = n
    · simp [state?, hn]
    · have hb : (y == n) = false := by simpa using hn
      simpa [state?, List.lookup, hb] using ih

end StateMap

/-! ## Weak and clearing operations -/

/-- The operation makes no array unique. -/
def Operation.Weak (operation : Operation) : Prop :=
  ∀ state x, Unique (transferOperation state operation) x → Unique state x

/-- After the operation an array is not unique. -/
def Operation.Clears (operation : Operation) (x : String) : Prop :=
  ∀ state, ¬ Unique (transferOperation state operation) x

theorem weak_of_insert {operation : Operation} (x : String) (ownership : OwnershipState)
    (ho : ownership ≠ .unique)
    (h : ∀ state, transferOperation state operation = state.insert x ownership) :
    operation.Weak ∧ operation.Clears x := by
  constructor
  · intro state y hy
    rw [h, StateMap.unique_insert_other state x y ownership ho] at hy
    exact hy.2
  · intro state hy
    rw [h, StateMap.unique_insert_other state x x ownership ho] at hy
    exact hy.1 rfl

theorem weak_release (x : String) : (Operation.release x).Weak ∧ (Operation.release x).Clears x :=
  weak_of_insert x .moved (by simp) fun _ => rfl

theorem weak_move (x : String) : (Operation.move x).Weak ∧ (Operation.move x).Clears x :=
  weak_of_insert x .moved (by simp) fun _ => rfl

theorem weak_retain (x : String) : (Operation.retain x).Weak ∧ (Operation.retain x).Clears x :=
  weak_of_insert x .shared (by simp) fun _ => rfl

theorem weak_assignUnknown (x : String) :
    (Operation.assignUnknown x).Weak ∧ (Operation.assignUnknown x).Clears x :=
  weak_of_insert x .unknown (by simp) fun _ => rfl

theorem weak_arrayMutation (x : String) :
    (Operation.arrayMutation x).Weak ∧ (Operation.arrayMutation x).Clears x :=
  weak_of_insert x .unknown (by simp) fun _ => rfl

theorem weak_aliasArray (target source : String) :
    (Operation.aliasArray target source).Weak ∧ (Operation.aliasArray target source).Clears target ∧
      (Operation.aliasArray target source).Clears source := by
  have hiff (state y) : Unique (transferOperation state (.aliasArray target source)) y ↔
      y ≠ target ∧ y ≠ source ∧ Unique state y := by
    show Unique ((state.insert source .shared).insert target .shared) y ↔ _
    rw [StateMap.unique_insert_other _ _ _ _ (by simp), StateMap.unique_insert_other _ _ _ _ (by simp)]
  refine ⟨fun state y hy => ((hiff state y).1 hy).2.2, fun state hy => ?_, fun state hy => ?_⟩
  · exact ((hiff state target).1 hy).1 rfl
  · exact ((hiff state source).1 hy).2.1 rfl

theorem weak_escape (xs : List String) :
    (Operation.escape xs).Weak ∧ ∀ x ∈ xs, (Operation.escape xs).Clears x := by
  constructor
  · intro state y hy
    exact ((StateMap.unique_insertAll state xs y .unknown (by simp)).1 hy).2
  · intro x hx state hy
    exact ((StateMap.unique_insertAll state xs x .unknown (by simp)).1 hy).1 hx

theorem weak_read (x : String) : (Operation.read x).Weak := fun _ _ h => h

theorem weak_call (xs : List String) :
    (Operation.call .syncUnknown xs).Weak ∧ ∀ x, (Operation.call .syncUnknown xs).Clears x := by
  have h (state x) : ¬ Unique (transferOperation state (.call .syncUnknown xs)) x := by
    exact StateMap.not_unique_forget state x
  exact ⟨fun state x hx => absurd hx (h state x), fun x state => h state x⟩

/-! ## Lists of operations -/

@[simp] theorem transferOperations_cons (operation : Operation) (operations : List Operation)
    (state : StateMap) :
    transferOperations (operation :: operations) state
      = transferOperations operations (transferOperation state operation) := rfl

@[simp] theorem transferOperations_append (a b : List Operation) (state : StateMap) :
    transferOperations (a ++ b) state = transferOperations b (transferOperations a state) := by
  simp [transferOperations]

/-- The operations make no array unique, and every tracked array of `xs` is cleared. -/
structure Quiet (eligible xs : List String) (operations : List Operation) : Prop where
  weak : ∀ operation ∈ operations, operation.Weak
  clears : ∀ x ∈ xs, x ∈ eligible → ∃ operation ∈ operations, operation.Clears x

variable {eligible xs ys : List String} {operations : List Operation} {state : StateMap}
  {x : String}

theorem unique_of_weak (hw : ∀ operation ∈ operations, operation.Weak)
    (h : Unique (transferOperations operations state) x) : Unique state x := by
  induction operations generalizing state with
  | nil => exact h
  | cons operation operations ih =>
    have := ih (fun o ho => hw o (List.mem_cons_of_mem _ ho)) h
    exact hw operation (by simp) state x this

theorem Quiet.mono (hq : Quiet eligible xs operations) (hle : ∀ y ∈ ys, y ∈ xs) :
    Quiet eligible ys operations :=
  ⟨hq.weak, fun x hx => hq.clears x (hle x hx)⟩

theorem Quiet.unique (hq : Quiet eligible xs operations)
    (h : Unique (transferOperations operations state) x) :
    Unique state x ∧ (x ∈ eligible → x ∉ xs) := by
  refine ⟨unique_of_weak hq.weak h, fun he hx => ?_⟩
  obtain ⟨operation, hmem, hc⟩ := hq.clears x hx he
  obtain ⟨before, after, rfl⟩ := List.append_of_mem hmem
  rw [transferOperations_append, transferOperations_cons] at h
  -- Nothing after the clearing operation makes the array unique again.
  have hafter (o) (ho : o ∈ after) : o.Weak :=
    hq.weak o (List.mem_append_right _ (List.mem_cons_of_mem _ ho))
  exact hc _ (unique_of_weak hafter h)

/-! ## Collected effects -/

/-- The operations so far are weak, and each tracked array of `xs` is cleared or about to be. -/
structure Sees (eligible xs : List String) (effects : ExprEffects) : Prop where
  weak : ∀ operation ∈ effects.operations, operation.Weak
  seen : ∀ x ∈ xs, x ∈ eligible → x ∈ effects.escapes ∨ x ∈ effects.moves ∨
    ∃ operation ∈ effects.operations, operation.Clears x

namespace Sees

variable {effects : ExprEffects}

theorem empty : Sees eligible [] .empty := ⟨by simp [ExprEffects.empty], by simp⟩

theorem mono (h : Sees eligible xs effects) (hle : ∀ y ∈ ys, y ∈ xs) : Sees eligible ys effects :=
  ⟨h.weak, fun x hx => h.seen x (hle x hx)⟩

theorem panics (h : Sees eligible xs effects) (kind : PanicKind) :
    Sees eligible xs (effects.panics kind) := ⟨h.weak, h.seen⟩

theorem binaryPanics (h : Sees eligible xs effects) (op : BinaryOp) (valueType : ValueType) :
    Sees eligible xs (binaryPanics op valueType effects) := by
  unfold Mir.binaryPanics
  split
  · split <;> first | exact h | exact ⟨h.weak, h.seen⟩
  · exact h

theorem push {operation : Operation} (h : Sees eligible xs effects) (hw : operation.Weak) :
    Sees eligible xs (effects.push operation) where
  weak o ho := by
    rcases List.mem_append.1 ho with ho | ho
    · exact h.weak o ho
    · rw [List.mem_singleton.1 ho]
      exact hw
  seen x hx he := by
    rcases h.seen x hx he with h1 | h1 | ⟨o, ho, hc⟩
    · exact Or.inl h1
    · exact Or.inr (Or.inl h1)
    · exact Or.inr (Or.inr ⟨o, List.mem_append_left _ ho, hc⟩)

theorem pushClears {operation : Operation} (ys : List String) (h : Sees eligible xs effects) (hw : operation.Weak)
    (hc : ∀ y ∈ ys, operation.Clears y) : Sees eligible (ys ++ xs) (effects.push operation) where
  weak := (h.push hw).weak
  seen x hx he := by
    rcases List.mem_append.1 hx with hx | hx
    · exact Or.inr (Or.inr ⟨operation, by simp [ExprEffects.push], hc x hx⟩)
    · exact (h.push hw).seen x hx he

theorem pushIf {operation : Operation} (h : Sees eligible xs effects)
    (hw : operation.Weak ∧ operation.Clears x) :
    Sees eligible (x :: xs) (effects.pushIf (decide (x ∈ eligible)) operation) := by
  unfold ExprEffects.pushIf
  by_cases hx : x ∈ eligible
  · simpa [hx] using h.pushClears [x] hw.1 (by simpa using hw.2)
  rw [if_neg (by simpa using hx)]
  refine ⟨h.weak, fun y hy he => ?_⟩
  rcases List.mem_cons.1 hy with rfl | hy
  · exact absurd he hx
  · exact h.seen y hy he

theorem pushWhen {operation : Operation} (h : Sees eligible xs effects) (hw : operation.Weak)
    (b : Bool) : Sees eligible xs (effects.pushIf b operation) := by
  unfold ExprEffects.pushIf
  split
  · exact h.push hw
  · exact h

theorem variableUse (h : Sees eligible xs effects) (name : String) (context : ExprContext)
    (hc : context ≠ .read) :
    Sees eligible (name :: xs) (recordVariableUse eligible name context effects) := by
  unfold recordVariableUse
  by_cases hn : name ∈ eligible
  · rw [if_pos hn]
    cases context with
    | read => exact absurd rfl hc
    | value =>
      refine ⟨h.weak, fun y hy he => ?_⟩
      rcases List.mem_cons.1 hy with rfl | hy
      · exact Or.inl (List.mem_insert_self)
      · rcases h.seen y hy he with h1 | h1
        · exact Or.inl (List.mem_insert_of_mem h1)
        · exact Or.inr h1
    | move =>
      refine ⟨h.weak, fun y hy he => ?_⟩
      rcases List.mem_cons.1 hy with rfl | hy
      · exact Or.inr (Or.inl (List.mem_insert_self))
      · rcases h.seen y hy he with h1 | h1 | h1
        · exact Or.inl h1
        · exact Or.inr (Or.inl (List.mem_insert_of_mem h1))
        · exact Or.inr (Or.inr h1)
  · rw [if_neg hn]
    refine ⟨h.weak, fun y hy he => ?_⟩
    rcases List.mem_cons.1 hy with rfl | hy
    · exact absurd he hn
    · exact h.seen y hy he

theorem variableRead (h : Sees eligible xs effects) (name : String) (context : ExprContext) :
    Sees eligible xs (recordVariableUse eligible name context effects) := by
  unfold recordVariableUse
  by_cases hn : name ∈ eligible
  · rw [if_pos hn]
    cases context with
    | read => exact ⟨h.weak, h.seen⟩
    | value =>
      exact ⟨h.weak, fun y hy he => (h.seen y hy he).imp List.mem_insert_of_mem id⟩
    | move =>
      exact ⟨h.weak, fun y hy he => (h.seen y hy he).imp id (Or.imp List.mem_insert_of_mem id)⟩
  · rw [if_neg hn]
    exact h

theorem borrow (h : Sees eligible xs effects) (path : List String) :
    Sees eligible (path.take 1 ++ xs) (recordBorrow eligible path effects) := by
  cases path with
  | nil => exact h
  | cons root path => exact h.variableUse root .value (by simp)

theorem flush (h : Sees eligible xs effects) : Sees eligible xs effects.flushUses where
  weak o ho := by
    simp only [ExprEffects.flushUses, List.mem_append, List.mem_map] at ho
    rcases ho with ((ho | ho) | ⟨x, -, rfl⟩) | ⟨x, -, rfl⟩
    · exact h.weak o ho
    · split at ho
      · simp at ho
      · rw [List.mem_singleton.1 ho]
        exact (weak_escape _).1
    · exact (weak_move x).1
    · exact weak_read x
  seen x hx he := by
    right; right
    simp only [ExprEffects.flushUses, List.mem_append, List.mem_map]
    rcases h.seen x hx he with h1 | h1 | ⟨o, ho, hc⟩
    · refine ⟨.escape effects.escapes, Or.inl (Or.inl (Or.inr ?_)), (weak_escape _).2 x h1⟩
      have hne : effects.escapes.isEmpty = false := by
        rw [List.isEmpty_eq_false_iff]
        exact List.ne_nil_of_mem h1
      simp [hne]
    · exact ⟨.move x, Or.inl (Or.inr ⟨x, h1, rfl⟩), (weak_move x).2⟩
    · exact ⟨o, Or.inl (Or.inl (Or.inl ho)), hc⟩

theorem quiet (h : Sees eligible xs effects) : Quiet eligible xs effects.flushUses.operations where
  weak := h.flush.weak
  clears x hx he := by
    rcases h.flush.seen x hx he with h1 | h1 | h1
    · simp [ExprEffects.flushUses] at h1
    · simp [ExprEffects.flushUses] at h1
    · exact h1

end Sees

theorem collect_read (e : ValueExpr) (he : ∀ name, e ≠ .variable name) (effects : ExprEffects) :
    collectExprEffects eligible e .read effects = collectExprEffects eligible e .value effects := by
  cases e with
  | «variable» name => exact absurd rfl (he name)
  | enumVariant enumName enumArgs variant payload => cases payload <;> rfl
  | _ => rfl

mutual

theorem collect_sees (e : ValueExpr) (context : ExprContext) (effects : ExprEffects)
    (xs : List String) (hc : context ≠ .read) (h : Sees eligible xs effects) :
    Sees eligible (e.touched ++ xs) (collectExprEffects eligible e context effects) := by
  have hv : ExprContext.value ≠ .read := by simp
  cases e with
  | literal l | functionRef f | arrayNew t => exact h
  | «variable» name => exact h.variableUse name context hc
  | mutBorrow path => exact h.borrow path
  | fieldAccess base field => exact h.variableUse base .value hv
  | binary left op right t =>
    have := collect_sees right .value _ _ hv
      (collect_sees left .value _ _ hv (h.binaryPanics op t))
    exact this.mono fun y hy => by
      simp only [ValueExpr.touched, List.mem_append] at hy ⊢
      tauto
  | unary op child | cast child t | combine combinator child converter | arrayIter child t
      | enumPayloadFieldAccess child variant field | enumPayload child variant =>
        exact collect_sees child .value _ _ hv h
  | builtin op args | structLiteral typeName fieldNames args => exact collectAll_sees args _ _ h
  | call name args =>
    exact (collectAll_sees args _ _ h).push (weak_call _).1
  | unwrapOr carrier operand default =>
    have := collect_sees default .value _ _ hv (collect_sees operand .value _ _ hv h)
    exact this.mono fun y hy => by
      simp only [ValueExpr.touched, List.mem_append] at hy ⊢
      tauto
  | arrayLiteral elements t => exact collectAll_sees elements _ _ h
  | arrayIndex array index t =>
    have := collect_sees index .value _ _ hv (collectRead_sees array _ _ h)
    exact (this.mono fun y hy => by
      rw [touched_arrayIndex] at hy
      simp only [List.mem_append] at hy ⊢
      tauto).panics _
  | arrayGet array index t =>
    have := collect_sees index .value _ _ hv (collectRead_sees array _ _ h)
    exact this.mono fun y hy => by
      rw [touched_arrayGet] at hy
      simp only [List.mem_append] at hy ⊢
      tauto
  | arrayLen array => exact collectRead_sees array _ _ h
  | arrayPop array t | arrayClear array t => exact h.pushIf (weak_arrayMutation array)
  | arrayRemove array index t =>
    have := (collect_sees index .value _ _ hv h).pushIf (weak_arrayMutation array)
    exact this.mono fun y hy => by
      simp only [ValueExpr.touched, List.mem_append, List.mem_cons, List.not_mem_nil] at hy ⊢
      tauto
  | arrayPush array value t =>
    have := (collect_sees value .value _ _ hv h).pushIf (weak_arrayMutation array)
    exact this.mono fun y hy => by
      simp only [ValueExpr.touched, List.mem_append, List.mem_cons, List.not_mem_nil] at hy ⊢
      tauto
  | arraySet array index value t mode | arrayInsert array index value t =>
    have := (collect_sees value .value _ _ hv (collect_sees index .value _ _ hv h)).pushIf
      (weak_arrayMutation array)
    exact (this.mono fun y hy => by
      simp only [ValueExpr.touched, List.mem_append, List.mem_cons, List.not_mem_nil] at hy ⊢
      tauto).panics _
  | enumVariant enumName enumArgs variant payload =>
    cases payload with
    | none => exact h
    | some child => exact collect_sees child .value _ _ hv h
  | matchOn value arms =>
    have := collectArms_sees arms _ _ (collect_sees value .value _ _ hv h)
    exact this.mono fun y hy => by
      simp only [ValueExpr.touched, List.mem_append] at hy ⊢
      tauto
  | ifThenElse condition thenBranch elseBranch =>
    have := collect_sees elseBranch .value _ _ hv (collect_sees thenBranch .value _ _ hv
      (collect_sees condition .value _ _ hv h))
    exact this.mono fun y hy => by
      simp only [ValueExpr.touched, List.mem_append] at hy ⊢
      tauto
  | panic message t => exact (collect_sees message .value _ _ hv h).panics _

theorem collectRead_sees (e : ValueExpr) (effects : ExprEffects) (xs : List String)
    (h : Sees eligible xs effects) :
    Sees eligible ((ValueExpr.arrayLen e).touched ++ xs)
      (collectExprEffects eligible e .read effects) := by
  by_cases hvar : ∃ name, e = .variable name
  · obtain ⟨name, rfl⟩ := hvar
    exact h.variableRead name .read
  · have htouch : (ValueExpr.arrayLen e).touched = e.touched := by
      cases e <;> first | rfl | exact absurd ⟨_, rfl⟩ hvar
    rw [htouch, collect_read e fun name hn => hvar ⟨name, hn⟩]
    exact collect_sees e .value effects xs (by simp) h

theorem collectAll_sees (es : List ValueExpr) (effects : ExprEffects) (xs : List String)
    (h : Sees eligible xs effects) :
    Sees eligible (touchedAll es ++ xs) (collectExprsEffects eligible es effects) := by
  cases es with
  | nil => exact h
  | cons e es =>
    have := collectAll_sees es _ _ (collect_sees e .value _ _ (by simp) h)
    exact this.mono fun y hy => by
      simp only [touchedAll, List.mem_append] at hy ⊢
      tauto

theorem collectArms_sees (arms : List MatchValueArm) (effects : ExprEffects) (xs : List String)
    (h : Sees eligible xs effects) :
    Sees eligible (touchedArms arms ++ xs) (collectArmsEffects eligible arms effects) := by
  cases arms with
  | nil => exact h
  | cons arm arms =>
    obtain ⟨variant, binding, value⟩ := arm
    have := collectArms_sees arms _ _ (collect_sees value .value _ _ (by simp) h)
    exact this.mono fun y hy => by
      simp only [touchedArms, List.mem_append] at hy ⊢
      tauto

end

/-! ## Statements -/

theorem Sees.assignUnknown {effects : ExprEffects} (h : Sees eligible xs effects) (name : String)
    (overwrite : Bool) :
    Sees eligible (name :: xs) (assignUnknown eligible name overwrite effects) :=
  (h.pushWhen (weak_release name).1 _).pushIf (weak_assignUnknown name)

/-- The variables that the head of a statement touches or binds.  The statements that can make an
array unique are left to `assign_cases` and `indexAssign_cases`. -/
def headTouched : Statement → List String
  | .letIf name _ value _ _ | .letMatch name _ value _ _ | .questionLet _ name _ value _
  | .letElse name _ value _ _ | .ifLet (some name) _ value _ _ _ | .assignField name _ _ value =>
    name :: value.touched
  | .questionReturn _ _ value _ | .ifLet none _ value _ _ _ | .ifThenElse value _ _
  | .eprintln value | .eprint value | .println value | .print value | .panic value
  | .returnValue (some value) | .expr value | .matchOn value _ _ | .loop (.whileTrue value) _
  | .loop (.iterate _ _ value) _ => value.touched
  | .loop (.cStyle _ _ initializer condition update) _ =>
    initializer.touched ++ (condition.touched ++ update.touched)
  | .defer call => call.operand.touched
  | .letBind .. | .assign .. | .arrayIndexAssign .. | .taskSelect _ | .loop .infinite _
  | .breakLoop | .continueLoop | .returnValue none => []

/-- A statement that makes no array unique. -/
def isPlain : Statement → Bool
  | .letBind .. | .assign .. | .arrayIndexAssign .. => false
  | _ => true

theorem selectArms_see (arms : List TaskSelectArm) {effects : ExprEffects}
    (h : Sees eligible [] effects) :
    Sees eligible [] (arms.foldl (fun effects ⟨operation, _, _, _⟩ =>
      selectOperationEffects eligible effects operation) effects) := by
  induction arms generalizing effects with
  | nil => exact h
  | cons arm arms ih =>
    obtain ⟨operation, binding, t, body⟩ := arm
    refine ih ?_
    cases operation with
    | receive channel t => exact (collect_sees channel .value _ _ (by simp) h).mono (by simp)
    | send channel value t =>
      exact (collect_sees value .value _ _ (by simp)
        (collect_sees channel .value _ _ (by simp) h)).mono (by simp)
    | sleep duration => exact (collect_sees duration .value _ _ (by simp) h).mono (by simp)
    | join handle => exact h

/-- The operations of a plain statement are quiet on what its head touches. -/
theorem statement_quiet (s : Statement) (id : Nat) (hs : isPlain s = true) :
    Quiet eligible (headTouched s) (statementOperations eligible s id).1 := by
  have hcollect : ∀ e context, context ≠ .read →
      Sees eligible e.touched (collectExprEffects eligible e context .empty) := by
    intro e context hc
    simpa using collect_sees e context .empty [] hc Sees.empty
  suffices h : Sees eligible (headTouched s) (statementEffects eligible s id) from h.quiet
  cases s with
  | letBind | assign | arrayIndexAssign => simp [isPlain] at hs
  | taskSelect arms =>
    exact selectArms_see arms Sees.empty
  | letIf name t condition body elseBody =>
    exact (hcollect condition .value (by simp)).assignUnknown name false
  | letMatch name t value enumName arms | questionLet carrier name t value actions =>
    exact (hcollect value .value (by simp)).assignUnknown name false
  | letElse binding t value variant elseBody =>
    exact (hcollect value .value (by simp)).assignUnknown binding false
  | ifLet binding t value variant body elseBody =>
    cases binding with
    | none => exact hcollect value .value (by simp)
    | some binding => exact (hcollect value .value (by simp)).assignUnknown binding false
  | assignField base field t value =>
    have hbase : Sees eligible [base]
        (if base ∈ eligible then { ExprEffects.empty with escapes := [base] } else .empty) := by
      by_cases hb : base ∈ eligible
      · rw [if_pos hb]
        exact ⟨by simp [ExprEffects.empty], fun x hx _ => Or.inl hx⟩
      · rw [if_neg hb]
        exact ⟨by simp [ExprEffects.empty], fun x hx he => absurd he (by simpa using List.mem_singleton.1 hx ▸ hb)⟩
    exact (collect_sees value .value _ _ (by simp) hbase).mono fun y hy => by
      simp only [headTouched, List.mem_cons, List.mem_append, List.not_mem_nil] at hy ⊢
      tauto
  | questionReturn carrier t value actions => exact hcollect value .move (by simp)
  | returnValue value =>
    cases value with
    | none => exact Sees.empty
    | some value => exact hcollect value .move (by simp)
  | ifThenElse value body elseBody | eprintln value | eprint value | println value | print value
      | expr value | matchOn value enumName arms => exact hcollect value .value (by simp)
  | panic value => exact (hcollect value .value (by simp)).panics _
  | defer call => exact hcollect call.operand .value (by simp)
  | breakLoop | continueLoop => exact Sees.empty
  | loop kind body =>
    cases kind with
    | infinite => exact Sees.empty
    | whileTrue condition => exact hcollect condition .value (by simp)
    | iterate binding t iterable => exact hcollect iterable .value (by simp)
    | cStyle binding t initializer condition update =>
      have := collect_sees update .value _ _ (by simp)
        (collect_sees condition .value _ _ (by simp) (hcollect initializer .value (by simp)))
      exact this.mono fun y hy => by
        simp only [headTouched, List.mem_append] at hy ⊢
        tauto

theorem operations_flush (effects : ExprEffects) (h1 : effects.escapes = [])
    (h2 : effects.moves = []) (h3 : effects.reads = []) :
    effects.flushUses.operations = effects.operations := by
  simp [ExprEffects.flushUses, h1, h2, h3]

/-- The last operations of a store. -/
def storeOperations (name : String) (id : Nat) (flatArray : Bool) : List Operation :=
  [.checkedArrayBounds id name, .cowDetach id name flatArray false, .arrayStore id name]

theorem operations_pushStore (name : String) (id : Nat) (flatArray : Bool) (effects : ExprEffects) :
    ((pushStore name id flatArray effects.flushUses).panics .bounds).flushUses.operations
      = effects.flushUses.operations ++ storeOperations name id flatArray := by
  rw [operations_flush]
  · simp [pushStore, ExprEffects.push, ExprEffects.panics, storeOperations]
  all_goals rfl

/-- **The outcomes of an assignment.** It is quiet, or it ends by binding a fresh array, or it is an
element store into the assigned array. -/
theorem assign_cases (eligible : List String) (name : String) (value : ValueExpr) (overwrite : Bool) (id : Nat) :
    Quiet eligible (name :: value.touched)
        (assignOperations eligible name value overwrite id .empty).flushUses.operations ∨
      (name ∈ eligible ∧
        ((∃ t, value = .arrayNew t) ∨ ∃ elements t, value = .arrayLiteral elements t) ∧
        ∃ before, (assignOperations eligible name value overwrite id .empty).flushUses.operations
            = before ++ [.freshArray name] ∧ Quiet eligible value.touched before) ∨
      (name ∈ eligible ∧ ∃ index element t mode, value = .arraySet name index element t mode ∧
        ∃ before, (assignOperations eligible name value overwrite id .empty).flushUses.operations
            = before ++ storeOperations name id true ∧
          Quiet eligible (index.touched ++ element.touched) before) := by
  have hcollect (e : ValueExpr) :
      Sees eligible e.touched (collectExprEffects eligible e .value .empty) := by
    simpa using collect_sees e .value .empty [] (by simp) Sees.empty
  have hall (es : List ValueExpr) :
      Sees eligible (touchedAll es) (collectExprsEffects eligible es .empty) := by
    simpa using collectAll_sees es .empty [] Sees.empty
  have hother : Quiet eligible (name :: value.touched)
      (assignOther eligible name value overwrite .empty).flushUses.operations :=
    (((hcollect value).flush).assignUnknown name overwrite).quiet
  -- An array changed in place is cleared by the mutation at the end.
  have hmutate (e : ExprEffects) (ys : List String) : Sees eligible ys e →
      (∀ y ∈ name :: value.touched, y ∈ name :: ys) →
      Quiet eligible (name :: value.touched)
        (e.flushUses.push (.arrayMutation name)).flushUses.operations := by
    intro he hsub
    refine ((he.flush.pushClears [name] (weak_arrayMutation name).1 ?_).mono hsub).quiet
    intro y hy
    rw [List.mem_singleton.1 hy]
    exact (weak_arrayMutation name).2
  have hfresh (e : ExprEffects) : Sees eligible value.touched e →
      ∃ before, ((e.flushUses.pushIf overwrite (.release name)).push
          (.freshArray name)).flushUses.operations = before ++ [.freshArray name] ∧
        Quiet eligible value.touched before := by
    intro he
    have hq := (he.flush.pushWhen (weak_release name).1 overwrite).quiet
    refine ⟨(e.flushUses.pushIf overwrite (.release name)).operations, ?_, ?_⟩
    · rw [operations_flush] <;> cases overwrite <;> rfl
    · rwa [operations_flush] at hq <;> cases overwrite <;> rfl
  by_cases hn : name ∈ eligible
  swap
  · left
    unfold assignOperations
    rw [if_neg hn]
    exact hother
  unfold assignOperations
  rw [if_pos hn]
  cases value with
  | arrayNew t =>
    by_cases hp : isPrimitivePod t = true
    · right; left
      simp only [if_pos hp]
      exact ⟨hn, Or.inl ⟨t, rfl⟩, hfresh _ (hall [])⟩
    · left
      simpa only [if_neg hp] using hother
  | arrayLiteral elements t =>
    by_cases hp : isPrimitivePod t = true
    · right; left
      simp only [if_pos hp]
      exact ⟨hn, Or.inr ⟨elements, t, rfl⟩, hfresh _ (hall elements)⟩
    · left
      simpa only [if_neg hp] using hother
  | «variable» source =>
    left
    by_cases hsrc : source ∈ eligible
    · simp only [if_pos hsrc]
      have hempty : Sees eligible [] ExprEffects.empty := Sees.empty
      have h1 := (hempty.pushWhen (weak_release name).1 overwrite).push (weak_retain source).1
      refine (h1.pushClears [name, source] (weak_aliasArray name source).1 ?_).quiet
      intro y hy
      rcases List.mem_cons.1 hy with rfl | hy
      · exact (weak_aliasArray _ source).2.1
      · rw [List.mem_singleton.1 hy]
        exact (weak_aliasArray name source).2.2
    · simpa only [if_neg hsrc] using hother
  | arraySet array index element t mode =>
    by_cases hp : array = name ∧ isPrimitivePod t = true
    · obtain ⟨rfl, hp⟩ := hp
      right; right
      simp only [hp, and_self, if_true]
      refine ⟨hn, index, element, t, mode, rfl, _, operations_pushStore array id true _, ?_⟩
      refine ((collect_sees element .value _ _ (by simp) (hcollect index)).mono fun y hy => ?_).quiet
      simp only [List.mem_append] at hy ⊢
      tauto
    · left
      simpa only [if_neg hp] using hother
  | arrayPush array element t =>
    left
    by_cases ha : array = name
    · subst ha
      simp only [if_true]
      refine hmutate _ _ (hcollect element) fun y hy => ?_
      simp only [ValueExpr.touched, List.mem_cons, List.mem_append, List.not_mem_nil] at hy ⊢
      tauto
    · simpa only [if_neg ha] using hother
  | arrayInsert array index element t =>
    left
    by_cases ha : array = name
    · subst ha
      simp only [if_true]
      refine hmutate _ _ (collect_sees element .value _ _ (by simp) (hcollect index)) fun y hy => ?_
      simp only [ValueExpr.touched, List.mem_cons, List.mem_append, List.not_mem_nil] at hy ⊢
      tauto
    · simpa only [if_neg ha] using hother
  | arrayClear array t | arrayPop array t =>
    left
    by_cases ha : array = name
    · subst ha
      simp only [if_true]
      refine hmutate _ _ (hall []) fun y hy => ?_
      simp only [ValueExpr.touched, List.mem_cons, List.not_mem_nil] at hy ⊢
      tauto
    · simpa only [if_neg ha] using hother
  | arrayRemove array index t =>
    left
    by_cases ha : array = name
    · subst ha
      simp only [if_true]
      refine hmutate _ _ (hall [index]) fun y hy => ?_
      simp only [ValueExpr.touched, touchedAll, List.mem_cons, List.mem_append, List.not_mem_nil] at hy ⊢
      tauto
    · simpa only [if_neg ha] using hother
  | _ => exact Or.inl hother

/-- The outcomes of an indexed assignment: quiet if its root is not tracked, and a store if it is. -/
theorem indexAssign_cases (eligible : List String) (root : String) (indices : List ValueExpr)
    (arrayTypes : List ValueType) (value : ValueExpr) (mode : ArrayMutationMode) (id : Nat) :
    ∃ before, Quiet eligible (touchedAll indices ++ value.touched) before ∧
      (statementOperations eligible (.arrayIndexAssign root indices arrayTypes value mode) id).1
        = if root ∈ eligible then
            before ++ storeOperations root id (indices.length = 1 ∧ arrayTypes.length = 1 ∧
              (arrayTypes.head?.elim false isPrimitivePod))
          else before := by
  have hsees : Sees eligible (touchedAll indices ++ value.touched)
      (collectExprEffects eligible value .value (collectExprsEffects eligible indices .empty)) := by
    have hempty : Sees eligible [] .empty := Sees.empty
    have := collect_sees value .value _ _ (by simp) (collectAll_sees indices .empty [] hempty)
    exact this.mono fun y hy => by
      simp only [List.mem_append, List.not_mem_nil] at hy ⊢
      tauto
  refine ⟨_, hsees.quiet, ?_⟩
  simp only [statementOperations, ExprEffects.finish, statementEffects]
  by_cases hr : root ∈ eligible
  · rw [if_pos hr, if_pos hr]
    exact operations_pushStore root id _ _
  · rw [if_neg hr, if_neg hr, operations_flush] <;> rfl

end Nomo.Mir
