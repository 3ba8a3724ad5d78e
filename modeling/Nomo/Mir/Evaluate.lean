import Nomo.Ir.Ownership
import Nomo.Ir.Touched

/-!
# Expressions keep untouched arrays exclusive

Two settings that differ in the bodies of their functions, and in whether stores are monitored,
evaluate an expression alike, provided that every store in the expression is a `checkedCow` one and
that their function bodies agree (`InvokeSpec`).  The evaluation keeps `At`: references are counted,
and an array variable in `X` that the expression does not touch stays exclusive.

The induction is on fuel; `Evaluates n` collects the statement for each of the mutually recursive
evaluation functions, and `Evaluates.succ` is the step.
-/

namespace Nomo.Mir

open Nomo.Ir Nomo.Lib Nomo.Lib.RefCount

variable {Γ : List String} {X : String → Bool} {S : Nat → Prop} {L : Nat → Nat}

/-- Two settings to be compared: the same host, and functions related one by one. -/
structure Related (opt : Function → Function) (g₁ g₂ : Setting) : Prop where
  host : g₁.host = g₂.host
  unmonitored : g₂.monitor = false
  functions : g₁.program.functions = g₂.program.functions.map opt
  name : ∀ f, (opt f).name = f.name
  params : ∀ f, (opt f).params = f.params

theorem Related.find? {opt : Function → Function} {g₁ g₂ : Setting} (hg : Related opt g₁ g₂)
    (name : String) :
    g₁.program.functions.find? (fun f => decide (f.name = name))
      = (g₂.program.functions.find? fun f => decide (f.name = name)).map opt := by
  rw [hg.functions, List.find?_map]
  congr 1
  congr 1
  funext f
  simp [hg.name]

/-- Calling related functions on the same arguments agrees; the results and the final values of the
parameters take over the references of the arguments. -/
def InvokeSpec (opt : Function → Function) (g₁ g₂ : Setting) (n : Nat) : Prop :=
  ∀ f ∈ g₂.program.functions, ∀ (vs : List Value) Γ X S L,
    Keeps Γ X S (tally (handlesAll vs) + L) (invoke g₁ n (opt f) vs) (invoke g₂ n f vs)
      fun r => tally r.1.handles + (tally (handlesAll r.2) + L)

/-- No variable of a list is in `X`. -/
def Outside (X : String → Bool) (xs : List String) : Prop := ∀ x ∈ xs, X x = false

theorem Outside.left {xs ys : List String} (h : Outside X (xs ++ ys)) : Outside X xs :=
  fun x hx => h x (List.mem_append_left ys hx)

theorem Outside.right {xs ys : List String} (h : Outside X (xs ++ ys)) : Outside X ys :=
  fun x hx => h x (List.mem_append_right xs hx)

theorem Outside.tail {x : String} {xs : List String} (h : Outside X (x :: xs)) : Outside X xs :=
  fun y hy => h y (List.mem_cons_of_mem _ hy)

theorem Outside.single {x : String} (h : Outside X [x]) : X x = false := h x (by simp)

theorem Outside.head {path : List String} (h : Outside X (path.take 1)) :
    ∀ root ∈ path.head?, X root = false := by
  intro root hroot
  cases path with
  | nil => simp at hroot
  | cons r path =>
    have hr : r = root := by simpa using hroot
    exact h root (by simp [hr])

/-- What evaluation with fuel `n` does, function by function. -/
structure Evaluates (g₁ g₂ : Setting) (n : Nat) : Prop where
  eval : ∀ (e : ValueExpr) Γ X S L,
    e.checkedCow = true → Outside X e.touched →
      Keeps Γ X S L (eval g₁ n e) (eval g₂ n e) fun v => tally v.handles + L
  evalAll : ∀ (es : List ValueExpr) Γ X S L, checkedCowAll es = true → Outside X (touchedAll es) →
      Keeps Γ X S L (evalAll g₁ n es) (evalAll g₂ n es) fun vs => tally (handlesAll vs) + L
  evalBool : ∀ (e : ValueExpr) Γ X S L, e.checkedCow = true → Outside X e.touched →
      Keeps Γ X S L (evalBool g₁ n e) (evalBool g₂ n e) fun _ => L
  evalIndex : ∀ (e : ValueExpr) Γ X S L, e.checkedCow = true → Outside X e.touched →
      Keeps Γ X S L (evalIndex g₁ n e) (evalIndex g₂ n e) fun _ => L
  evalIndices : ∀ (es : List ValueExpr) Γ X S L,
      checkedCowAll es = true → Outside X (touchedAll es) →
      Keeps Γ X S L (evalIndices g₁ n es) (evalIndices g₂ n es) fun _ => L
  evalElement : ∀ (array index : ValueExpr) (t : ValueType) Γ X S L, array.checkedCow = true →
      index.checkedCow = true → Outside X (ValueExpr.arrayIndex array index t).touched →
      Keeps Γ X S L (evalElement g₁ n array index) (evalElement g₂ n array index)
        fun r => tally (optionHandles r) + L
  evalLength : ∀ (array : ValueExpr) Γ X S L,
      array.checkedCow = true → Outside X (ValueExpr.arrayLen array).touched →
      Keeps Γ X S L (evalLength g₁ n array) (evalLength g₂ n array) fun v => tally v.handles + L
  evalArguments : ∀ (ps : List Parameter) (es : List ValueExpr) Γ X S L, checkedCowAll es = true →
      Outside X (touchedAll es) →
      Agrees Bad (At Γ X S L) (evalArguments g₁ n ps es) (evalArguments g₂ n ps es)
        fun given m => LentOutside X given ∧ At Γ X S (tally (argumentHandles given) + L) m
  evalArgument : ∀ (p : Parameter) (e : ValueExpr) Γ X S L,
      e.checkedCow = true → Outside X e.touched →
      Agrees Bad (At Γ X S L) (evalArgument g₁ n p e) (evalArgument g₂ n p e)
        fun a m => LentOutside X [a] ∧ At Γ X S (tally (argumentHandles [a]) + L) m
  callFunction : ∀ (name : String) (es : List ValueExpr) Γ X S L,
      checkedCowAll es = true → Outside X (touchedAll es) →
      Keeps Γ X S L (callFunction g₁ n name es) (callFunction g₂ n name es)
        fun v => tally v.handles + L
  applyFunction : ∀ (name : String) (vs : List Value) Γ X S L,
      Keeps Γ X S (tally (handlesAll vs) + L) (applyFunction g₁ n name vs)
        (applyFunction g₂ n name vs) fun v => tally v.handles + L

theorem outOfFuel_spec {α : Type} {pre : Machine → Prop} {post : α → Machine → Prop} :
    Agrees Bad pre (throw .outOfFuel : Exec α) (throw .outOfFuel) post :=
  Agrees.throw _ (by simp)

theorem panic_spec {α : Type} {pre : Machine → Prop} {post : α → Machine → Prop} (text : String) :
    Agrees Bad pre (throw (.panic text) : Exec α) (throw (.panic text)) post :=
  Agrees.throw _ (by simp)

theorem Evaluates.zero (g₁ g₂ : Setting) : Evaluates g₁ g₂ 0 := by
  constructor <;> intros
  case eval => exact outOfFuel_spec
  case evalAll => exact outOfFuel_spec
  case evalBool => exact outOfFuel_spec
  case evalIndex => exact outOfFuel_spec
  case evalIndices => exact outOfFuel_spec
  case evalElement => exact outOfFuel_spec
  case evalLength => exact outOfFuel_spec
  case evalArguments => exact outOfFuel_spec
  case evalArgument => exact outOfFuel_spec
  case callFunction => exact outOfFuel_spec
  case applyFunction => exact outOfFuel_spec

section Step

variable {opt : Function → Function} {g₁ g₂ : Setting} {n : Nat}

theorem armValue_spec (arms : List MatchValueArm) (variant : String) (value : ValueExpr)
    (h : armValue arms variant = some value) :
    (checkedCowArms arms = true → value.checkedCow = true) ∧
      ∀ x ∈ value.touched, x ∈ touchedArms arms := by
  induction arms with
  | nil => simp [armValue] at h
  | cons arm arms ih =>
    obtain ⟨v, b, e⟩ := arm
    simp only [armValue] at h
    split at h
    · cases h
      constructor
      · intro hc
        simp only [checkedCowArms, Bool.and_eq_true] at hc
        exact hc.1
      · intro x hx
        exact List.mem_append_left _ hx
    · obtain ⟨h1, h2⟩ := ih h
      constructor
      · intro hc
        simp only [checkedCowArms, Bool.and_eq_true] at hc
        exact h1 hc.2
      · intro x hx
        exact List.mem_append_right _ (h2 x hx)

theorem primitive_spec (hh : g₁.host = g₂.host) (p : Primitive) (vs : List Value) :
    Keeps Γ X S (tally (handlesAll vs) + L) (request (g₁.host.primitive p vs) vs)
      (request (g₂.host.primitive p vs) vs) fun v => tally v.handles + L := by
  rw [hh]
  exact request_spec _ vs

theorem primitive_one_spec (hh : g₁.host = g₂.host) (p : Primitive) (v : Value) :
    Keeps Γ X S (tally v.handles + L) (request (g₁.host.primitive p [v]) [v])
      (request (g₂.host.primitive p [v]) [v]) fun w => tally w.handles + L :=
  (primitive_spec hh p [v]).fewer fun g => by simp [handlesAll]

theorem copyArray_spec (x : String) (hx : X x = false) :
    Keeps Γ X S L (copyVariable x >>= Value.asArray) (copyVariable x >>= Value.asArray)
      fun h => tally [h] + L :=
  Agrees.bind (copyVariable_spec x hx) fun v => (asArray_spec v).imp fun _ _ h => h.2

theorem changedCopy_spec {f₁ f₂ : Nat → Exec Nat} {K : Nat → Nat} (x : String) (hx : X x = false)
    (hf : ∀ h, Agrees Bad (At Γ X S (tally [h] + (K + L))) (f₁ h) (f₂ h) (Exclusive Γ X S L)) :
    Agrees Bad (At Γ X S (K + L))
      (do let h ← copyVariable x >>= Value.asArray; let h ← f₁ h; pure (Value.array h))
      (do let h ← copyVariable x >>= Value.asArray; let h ← f₂ h; pure (Value.array h))
      fun v m => At Γ X S (tally v.handles + L) m ∧
        ∃ h, v = .array h ∧ m.heap.refs h = 1 :=
  Agrees.bind (copyArray_spec x hx) fun h =>
    Agrees.bind (hf h) fun h' => Agrees.pure _ fun _ hm => ⟨hm.1, h', rfl, hm.2⟩

theorem step_eval (hg : Related opt g₁ g₂) (ih : Evaluates g₁ g₂ n) (e : ValueExpr)
    (Γ : List String) (X : String → Bool) (S : Nat → Prop) (L : Nat → Nat)
    (hc : e.checkedCow = true) (ht : Outside X e.touched) :
    Keeps Γ X S L (eval g₁ (n + 1) e) (eval g₂ (n + 1) e) fun v => tally v.handles + L := by
  cases e with
  | literal l | functionRef f => exact pure_spec _ fun g => by simp [Value.handles]
  | «variable» x => exact copyVariable_spec x ht.single
  | binary left op right valueType =>
    simp only [ValueExpr.checkedCow, Bool.and_eq_true] at hc
    have hl := ih.evalBool left Γ X S L hc.1 ht.left
    have hr := ih.eval right Γ X S L hc.2 ht.right
    have hboth : Keeps Γ X S L
        (do let vs ← evalAll g₁ n [left, right]
            request (g₁.host.primitive (.binary op valueType) vs) vs)
        (do let vs ← evalAll g₂ n [left, right]
            request (g₂.host.primitive (.binary op valueType) vs) vs)
        fun v => tally v.handles + L := by
      refine Agrees.bind (ih.evalAll [left, right] Γ X S L ?_ ?_) fun vs =>
        primitive_spec hg.host _ vs
      · simp [checkedCowAll, hc.1, hc.2]
      · simpa [touchedAll, ValueExpr.touched] using ht
    cases op with
    | logicalAnd =>
      refine Agrees.bind hl fun b => ?_
      cases b with
      | true => exact hr
      | false => exact pure_spec _ fun g => by simp [Value.handles]
    | logicalOr =>
      refine Agrees.bind hl fun b => ?_
      cases b with
      | true => exact pure_spec _ fun g => by simp [Value.handles]
      | false => exact hr
    | _ => exact hboth
  | unary op operand | cast operand targetType =>
    exact Agrees.bind (ih.eval operand Γ X S L hc ht) fun v => primitive_one_spec hg.host _ v
  | builtin op args =>
    exact Agrees.bind (ih.evalAll args Γ X S L hc ht) fun vs => primitive_spec hg.host _ vs
  | call name args => exact ih.callFunction name args Γ X S L hc ht
  | mutBorrow path => exact copyPath_spec path ht.head
  | combine combinator operand converter =>
    refine Agrees.bind (ih.eval operand Γ X S L hc ht) fun v => ?_
    refine Agrees.bind (splitVariant_spec v) fun r => ?_
    obtain ⟨variant, payload⟩ := r
    dsimp only
    split
    · refine Agrees.bind (Q := fun w => At Γ X S (tally w.handles + L))
        ((ih.applyFunction converter payload Γ X S L).weaken ?_ fun _ _ h => h) fun w => ?_
      · rintro m ⟨rfl, hm⟩
        exact hm
      · split
        · exact pure_spec _ fun g => by simp [Value.handles, handlesAll]
        · exact pure_spec _ fun g => by simp
    · refine Agrees.pure _ ?_
      rintro m ⟨rfl, hm⟩
      exact hm
  | unwrapOr carrier operand default =>
    simp only [ValueExpr.checkedCow, Bool.and_eq_true] at hc
    refine Agrees.bind (ih.eval operand Γ X S L hc.1 ht.left) fun v => ?_
    refine Agrees.bind (splitVariant_spec v) fun r => ?_
    obtain ⟨variant, payload⟩ := r
    dsimp only
    split
    · split
      · refine Agrees.pure _ ?_
        rintro m ⟨rfl, hm⟩
        simpa [Value.handles, handlesAll] using hm
      · exact unsupported_spec
    · refine Agrees.bind ((discard_spec v).strengthen fun m hm => hm.2) fun _ => ?_
      exact ih.eval default Γ X S L hc.2 ht.right
  | arrayNew t =>
    refine Agrees.bind (((newArray_spec (L := L) []).weaken (fun m hm => ?_) fun _ _ h => h.1))
      fun h => pure_spec _ fun g => by simp [Value.handles]
    exact hm.weaken fun g => by simp [handlesAll]
  | arrayLiteral elements t =>
    refine Agrees.bind (ih.evalAll elements Γ X S L hc ht) fun vs => ?_
    exact Agrees.bind ((newArray_spec vs).imp fun _ _ h => h.1) fun h =>
      pure_spec _ fun g => by simp [Value.handles]
  | arrayIndex array index t =>
    simp only [ValueExpr.checkedCow, Bool.and_eq_true] at hc
    refine Agrees.bind (ih.evalElement array index t Γ X S L hc.1 hc.2 ht) fun r => ?_
    cases r with
    | some v => exact pure_spec _ fun g => by simp [optionHandles, handlesAll]
    | none => exact panic_spec _
  | arrayGet array index t =>
    simp only [ValueExpr.checkedCow, Bool.and_eq_true] at hc
    have ht' : Outside X (ValueExpr.arrayIndex array index t).touched := by
      cases array <;> exact ht
    refine Agrees.bind (ih.evalElement array index t Γ X S L hc.1 hc.2 ht') fun r => ?_
    cases r with
    | some v => exact pure_spec _ fun g => by simp [Value.some, Value.handles, optionHandles]
    | none => exact pure_spec _ fun g => by simp [Value.none, Value.handles, handlesAll]
  | arrayLen array => exact ih.evalLength array Γ X S L (by simpa [ValueExpr.checkedCow] using hc) ht
  | arrayIter array t => exact ih.eval array Γ X S L hc ht
  | arrayPop x t =>
    refine updateArray_spec (α := Value) x ht.single fun h => ?_
    exact Agrees.bind (arrayLength_spec h) fun len => removeElement_spec h (len - 1)
  | arrayRemove x index t =>
    refine Agrees.bind (ih.evalIndex index Γ X S L hc ht.left) fun i => ?_
    exact updateArray_spec (α := Value) x ht.right.single fun h => removeElement_spec h i
  | arrayPush x value t =>
    refine Agrees.bind (ih.eval value Γ X S L hc ht.left) fun v => ?_
    exact (changedCopy_spec x ht.right.single fun h => pushElement_spec h v).imp fun _ _ h => h.1
  | arraySet x index value t mode =>
    simp only [ValueExpr.checkedCow, Bool.and_eq_true, beq_iff_eq] at hc
    obtain ⟨rfl, hci, hcv⟩ := hc
    refine Agrees.bind (ih.evalIndex index Γ X S L hci ht.left) fun i => ?_
    refine Agrees.bind (ih.eval value Γ X S L hcv ht.right.left) fun v => ?_
    rw [hg.unmonitored]
    exact (changedCopy_spec x ht.right.right.single fun h =>
      setElement_cow_spec g₁.monitor h i v).imp fun _ _ h => h.1
  | arrayInsert x index value t =>
    simp only [ValueExpr.checkedCow, Bool.and_eq_true] at hc
    refine Agrees.bind (ih.evalIndex index Γ X S L hc.1 ht.left) fun i => ?_
    refine Agrees.bind (ih.eval value Γ X S L hc.2 ht.right.left) fun v => ?_
    exact (changedCopy_spec x ht.right.right.single fun h => insertElement_spec h i v).imp
      fun _ _ h => h.1
  | arrayClear x t =>
    refine ((changedCopy_spec (K := 0) x ht.single fun h => ?_).weaken (fun m hm => ?_)
      fun _ _ h => h.1)
    · exact (clearElements_spec h).fewer fun g => by simp
    · exact hm.weaken fun g => by simp
  | structLiteral typeName fieldNames fieldValues =>
    exact Agrees.bind (ih.evalAll fieldValues Γ X S L hc ht) fun vs =>
      pure_spec _ fun g => by simp [Value.handles]
  | fieldAccess base field =>
    refine copyPath_spec [base, field] fun root hroot => ?_
    have : base = root := by simpa using hroot
    exact this ▸ ht.single
  | enumPayloadFieldAccess value variant field =>
    refine Agrees.bind (ih.eval value Γ X S L hc ht) fun v => ?_
    refine Agrees.bind (splitVariant_spec v) fun r => ?_
    obtain ⟨actual, payload⟩ := r
    dsimp only
    split
    · refine Agrees.bind (payloadField_spec field payload) fun inner => ?_
      refine Agrees.bind (Q := fun w => At Γ X S (tally w.handles + (tally v.handles + L)))
        (Agrees.forState fun m hm => ?_) fun w => ?_
      · obtain ⟨hle, rfl, hm⟩ := hm
        refine (copyValue_spec inner fun g => ?_).strengthen fun s hs => hs ▸ hm
        have := hle g
        simp only [Value.handles, Pi.add_apply]
        omega
      · refine Agrees.bind (Q := fun _ => At Γ X S (tally w.handles + L))
          ((discard_spec v).fewer fun g => ?_) fun _ =>
            pure_spec _ fun g => by simp
        simp only [Pi.add_apply]
        omega
    · exact unsupported_spec
  | enumVariant enumName enumArgs variant payload =>
    cases payload with
    | none => exact pure_spec _ fun g => by simp [Value.handles, handlesAll]
    | some payload =>
      exact Agrees.bind (ih.eval payload Γ X S L hc ht) fun v =>
        pure_spec _ fun g => by simp [Value.handles, handlesAll]
  | enumPayload value variant =>
    refine Agrees.bind (ih.eval value Γ X S L hc ht) fun v => ?_
    refine Agrees.bind (splitVariant_spec v) fun r => ?_
    obtain ⟨actual, payload⟩ := r
    dsimp only
    split
    · split
      · refine Agrees.pure _ ?_
        rintro m ⟨rfl, hm⟩
        simpa [Value.handles, handlesAll] using hm
      · exact unsupported_spec
    · exact unsupported_spec
  | matchOn value arms =>
    simp only [ValueExpr.checkedCow, Bool.and_eq_true] at hc
    refine Agrees.bind (ih.eval value Γ X S L hc.1 ht.left) fun v => ?_
    refine Agrees.bind (splitVariant_spec v) fun r => ?_
    refine Agrees.bind ((discard_spec v).strengthen fun m hm => hm.2) fun _ => ?_
    dsimp only
    split
    · rename_i body hbody
      obtain ⟨h1, h2⟩ := armValue_spec arms _ body hbody
      exact ih.eval body Γ X S L (h1 hc.2) fun x hx => ht.right x (h2 x hx)
    · exact unsupported_spec
  | ifThenElse condition thenBranch elseBranch =>
    simp only [ValueExpr.checkedCow, Bool.and_eq_true] at hc
    refine Agrees.bind (ih.evalBool condition Γ X S L hc.1 ht.left) fun b => ?_
    cases b with
    | true => exact ih.eval thenBranch Γ X S L hc.2.1 ht.right.left
    | false => exact ih.eval elseBranch Γ X S L hc.2.2 ht.right.right
  | panic message t =>
    refine Agrees.bind (ih.eval message Γ X S L hc ht) fun v => ?_
    rw [hg.host]
    exact panicWith_spec _ v

theorem step_evalElement (ih : Evaluates g₁ g₂ n) (array index : ValueExpr) (t : ValueType)
    (Γ : List String) (X : String → Bool) (S : Nat → Prop) (L : Nat → Nat)
    (hc : array.checkedCow = true) (hci : index.checkedCow = true)
    (ht : Outside X (ValueExpr.arrayIndex array index t).touched) :
    Keeps Γ X S L (evalElement g₁ (n + 1) array index) (evalElement g₂ (n + 1) array index)
      fun r => tally (optionHandles r) + L := by
  -- The array of a variable is read without taking a reference.
  by_cases hvar : ∃ name, array = .variable name
  · obtain ⟨name, rfl⟩ := hvar
    refine Agrees.bind (ih.evalIndex index Γ X S L hci ht) fun i => ?_
    exact Agrees.bind (borrowArray_spec name) fun h => fetch_spec h i
  have htouch : (ValueExpr.arrayIndex array index t).touched = array.touched ++ index.touched := by
    cases array <;> first | rfl | exact absurd ⟨_, rfl⟩ hvar
  rw [htouch] at ht
  have hbody (g) : evalElement g (n + 1) array index = (do
      let v ← Nomo.Ir.eval g n array
      let i ← Nomo.Ir.evalIndex g n index
      let h ← v.asArray
      let r ← fetch h i
      discard v
      pure r) := by
    cases array <;> first | rfl | exact absurd ⟨_, rfl⟩ hvar
  rw [hbody, hbody]
  refine Agrees.bind (ih.eval array Γ X S L hc ht.left) fun v => ?_
  refine Agrees.bind (ih.evalIndex index Γ X S (tally v.handles + L) hci ht.right) fun i => ?_
  refine Agrees.bind (asArray_spec v) fun h => Agrees.fact ?_
  rintro rfl
  refine Agrees.bind (fetch_spec h i) fun r => ?_
  refine Agrees.bind (Q := fun _ m => At Γ X S (tally (optionHandles r) + L) m)
    ((discard_spec (.array h)).fewer fun g => ?_)
    fun _ => pure_spec r fun g => by simp
  simp only [Value.handles, Pi.add_apply]
  omega

theorem step_evalLength (ih : Evaluates g₁ g₂ n) (array : ValueExpr)
    (Γ : List String) (X : String → Bool) (S : Nat → Prop) (L : Nat → Nat)
    (hc : array.checkedCow = true) (ht : Outside X (ValueExpr.arrayLen array).touched) :
    Keeps Γ X S L (evalLength g₁ (n + 1) array) (evalLength g₂ (n + 1) array)
      fun v => tally v.handles + L := by
  by_cases hvar : ∃ name, array = .variable name
  · obtain ⟨name, rfl⟩ := hvar
    refine Agrees.bind (borrowArray_spec name) fun h => ?_
    exact Agrees.bind (arrayLength_spec h) fun len => pure_spec _ fun g => by simp [Value.handles]
  have htouch : (ValueExpr.arrayLen array).touched = array.touched := by
    cases array <;> first | rfl | exact absurd ⟨_, rfl⟩ hvar
  rw [htouch] at ht
  have hbody (g) : evalLength g (n + 1) array = (do
      let v ← Nomo.Ir.eval g n array
      let h ← v.asArray
      let len ← arrayLength h
      discard v
      pure (.literal (.int len))) := by
    cases array <;> first | rfl | exact absurd ⟨_, rfl⟩ hvar
  rw [hbody, hbody]
  refine Agrees.bind (ih.eval array Γ X S L hc ht) fun v => ?_
  refine Agrees.bind (asArray_spec v) fun h => Agrees.fact ?_
  rintro rfl
  refine Agrees.bind (arrayLength_spec h) fun len => ?_
  exact Agrees.bind (discard_spec (.array h)) fun _ => pure_spec _ fun g => by
    simp [Value.handles]

theorem step_evalArgument (ih : Evaluates g₁ g₂ n) (p : Parameter) (e : ValueExpr)
    (Γ : List String) (X : String → Bool) (S : Nat → Prop) (L : Nat → Nat)
    (hc : e.checkedCow = true) (ht : Outside X e.touched) :
    Agrees Bad (At Γ X S L) (evalArgument g₁ (n + 1) p e) (evalArgument g₂ (n + 1) p e)
      fun a m => LentOutside X [a] ∧ At Γ X S (tally (argumentHandles [a]) + L) m := by
  have hvalue (v) : LentOutside X [Argument.value v] := by
    intro path hp
    simp at hp
  have hdefault : Agrees Bad (At Γ X S L)
      (do let v ← Nomo.Ir.eval g₁ n e; pure (Argument.value v))
      (do let v ← Nomo.Ir.eval g₂ n e; pure (Argument.value v))
      fun a m => LentOutside X [a] ∧ At Γ X S (tally (argumentHandles [a]) + L) m := by
    refine Agrees.bind (ih.eval e Γ X S L hc ht) fun v => Agrees.pure _ fun m hm => ?_
    exact ⟨hvalue v, hm.weaken fun g => by simp [argumentHandles]⟩
  unfold evalArgument
  split
  · rename_i path _
    refine Agrees.pure _ fun m hm => ⟨?_, hm.weaken fun g => by simp [argumentHandles]⟩
    intro path' hp
    have : path' = path := by simpa using hp
    subst this
    exact ht.head
  · exact hdefault

theorem step_evalArguments (ih : Evaluates g₁ g₂ n) (ps : List Parameter) (es : List ValueExpr)
    (Γ : List String) (X : String → Bool) (S : Nat → Prop) (L : Nat → Nat)
    (hc : checkedCowAll es = true) (ht : Outside X (touchedAll es)) :
    Agrees Bad (At Γ X S L) (evalArguments g₁ (n + 1) ps es) (evalArguments g₂ (n + 1) ps es)
      fun given m => LentOutside X given ∧ At Γ X S (tally (argumentHandles given) + L) m := by
  have hnil (m) (hm : At Γ X S L m) : LentOutside X [] ∧ At Γ X S (tally (argumentHandles []) + L) m :=
    ⟨fun path hp => by simp at hp, hm.weaken fun g => by simp [argumentHandles]⟩
  cases ps with
  | nil => exact Agrees.pure _ hnil
  | cons p ps =>
    cases es with
    | nil => exact Agrees.pure _ hnil
    | cons e es =>
      simp only [checkedCowAll, Bool.and_eq_true] at hc
      refine Agrees.bind (ih.evalArgument p e Γ X S L hc.1 ht.left) fun a => Agrees.fact fun ha => ?_
      refine Agrees.bind (ih.evalArguments ps es Γ X S _ hc.2 ht.right) fun rest =>
        Agrees.fact fun hrest => Agrees.pure _ fun m hm => ⟨?_, hm.weaken fun g => ?_⟩
      · intro path hp
        rcases List.mem_cons.1 hp with hp | hp
        · exact ha path (by simp [hp])
        · exact hrest path hp
      · cases a with
        | value v =>
          simp only [argumentHandles, List.append_nil, RefCount.tally_append, Pi.add_apply]
          omega
        | lent path => simp [argumentHandles]

theorem step_applyFunction (hg : Related opt g₁ g₂) (hi : InvokeSpec opt g₁ g₂ n) (name : String)
    (vs : List Value) (Γ : List String) (X : String → Bool) (S : Nat → Prop) (L : Nat → Nat) :
    Keeps Γ X S (tally (handlesAll vs) + L) (applyFunction g₁ (n + 1) name vs)
      (applyFunction g₂ (n + 1) name vs) fun v => tally v.handles + L := by
  unfold applyFunction
  rw [hg.find? name]
  cases hf : g₂.program.functions.find? fun f => decide (f.name = name) with
  | none =>
    rw [hg.host]
    exact request_spec _ vs
  | some f =>
    refine Agrees.bind (hi f (List.mem_of_find?_eq_some hf) vs Γ X S L) fun r => ?_
    refine Agrees.bind (Q := fun _ => At Γ X S (tally r.1.handles + L))
      ((discardAll_spec r.2).fewer fun g => ?_) fun _ =>
        pure_spec _ fun g => by simp
    simp only [Pi.add_apply]
    omega

theorem step_callFunction (hg : Related opt g₁ g₂) (ih : Evaluates g₁ g₂ n)
    (hi : InvokeSpec opt g₁ g₂ n) (name : String) (es : List ValueExpr) (Γ : List String)
    (X : String → Bool) (S : Nat → Prop) (L : Nat → Nat) (hc : checkedCowAll es = true)
    (ht : Outside X (touchedAll es)) :
    Keeps Γ X S L (callFunction g₁ (n + 1) name es) (callFunction g₂ (n + 1) name es)
      fun v => tally v.handles + L := by
  unfold callFunction
  rw [hg.find? name]
  cases hf : g₂.program.functions.find? fun f => decide (f.name = name) with
  | none =>
    refine Agrees.bind (ih.evalAll es Γ X S L hc ht) fun vs => ?_
    rw [hg.host]
    exact request_spec _ vs
  | some f =>
    simp only [Option.map_some, hg.params]
    split
    · refine Agrees.bind (ih.evalArguments f.params es Γ X S L hc ht) fun given =>
        Agrees.fact fun hgiven => ?_
      refine Agrees.bind (lendAll_spec given hgiven) fun vs => ?_
      refine Agrees.bind (hi f (List.mem_of_find?_eq_some hf) vs Γ X S L) fun r => ?_
      refine Agrees.bind (Q := fun _ => At Γ X S (tally r.1.handles + L))
        ((settleAll_spec given r.2 hgiven).fewer fun g => ?_) fun _ => pure_spec _ fun g => by simp
      simp only [Pi.add_apply]
      omega
    · exact unsupported_spec

theorem Evaluates.succ (hg : Related opt g₁ g₂) (ih : Evaluates g₁ g₂ n)
    (hi : InvokeSpec opt g₁ g₂ n) : Evaluates g₁ g₂ (n + 1) where
  eval := step_eval hg ih
  evalAll es Γ X S L hc ht := by
    cases es with
    | nil => exact pure_spec _ fun g => by simp [handlesAll]
    | cons e es =>
      simp only [checkedCowAll, Bool.and_eq_true] at hc
      refine Agrees.bind (ih.eval e Γ X S L hc.1 ht.left) fun v => ?_
      refine Agrees.bind (ih.evalAll es Γ X S _ hc.2 ht.right) fun vs => pure_spec _ fun g => ?_
      simp only [handlesAll, RefCount.tally_append, Pi.add_apply]
      omega
  evalBool e Γ X S L hc ht :=
    Agrees.bind (ih.eval e Γ X S L hc ht) fun v => asBool_spec v
  evalIndex e Γ X S L hc ht :=
    Agrees.bind (ih.eval e Γ X S L hc ht) fun v => asIndex_spec v
  evalIndices es Γ X S L hc ht := by
    cases es with
    | nil => exact pure_spec _ fun g => Nat.le_refl _
    | cons e es =>
      simp only [checkedCowAll, Bool.and_eq_true] at hc
      refine Agrees.bind (ih.evalIndex e Γ X S L hc.1 ht.left) fun i => ?_
      exact Agrees.bind (ih.evalIndices es Γ X S L hc.2 ht.right) fun is =>
        pure_spec _ fun g => Nat.le_refl _
  evalElement array index t Γ X S L hc hci ht := step_evalElement ih array index t Γ X S L hc hci ht
  evalLength := step_evalLength ih
  evalArguments := step_evalArguments ih
  evalArgument := step_evalArgument ih
  callFunction := step_callFunction hg ih hi
  applyFunction := step_applyFunction hg hi

end Step

end Nomo.Mir
