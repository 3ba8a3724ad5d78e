import Nomo.Arith.NativeMeaning
import Nomo.Arith.WasmMeaning

/-!
# Do the two back ends agree?

They do not: unsigned arithmetic wraps in C and stops the interpreter, a signed shift to the left
stops the C program and wraps in the interpreter, a cast that does not fit wraps in C and stops the
interpreter, and the operands of a shift, which may be of different types, are brought to one type in
the interpreter only.

`backEnds_agree_iff` says exactly when they do.  Every part of an expression is evaluated the same way by both
just if the condition `NodeAgrees` holds at every node, and then both compute the meaning of the
expression, or stop because it has none.
-/

namespace Nomo.Arith

open Nomo.Lib

/-- Two evaluations of an expression of a type agree: they give the same integer, and one of that
type, or both stop. -/
def AgreesAs (T : ExprType) (x : Outcome CInt) (v : Except String Value) : Prop :=
  (∃ c value, x = .value c ∧ v = .ok value ∧ value.toInt = c.value ∧ T.format.Fits c.value) ∨
    (x.Exits ∧ ∃ message, v = .error message)

/-- The two back ends agree on an expression. -/
def Agrees (ρ : Store) (e : Expr) : Prop :=
  AgreesAs (declaredType ρ.scope e) (evalNative ρ e) (evalWasm ρ e)

/-- Both back ends compute the meaning of an expression. -/
structure Means (ρ : Store) (e : Expr) (T : ExprType) : Prop where
  native : NativeYields e.isLiteral T (evalNative ρ e) (denote ρ e)
  wasm : WasmYields (runtimeType ρ.scope e) (evalWasm ρ e) (denote ρ e)

/-! ## Types -/

variable {ρ : Store}

theorem declaredType_eq {e : Expr} {T : ExprType} (h : HasType ρ.scope e T)
    (hliteral : e.isLiteral = false) : declaredType ρ.scope e = T := by
  cases h with
  | intLiteral fits => cases hliteral
  | «variable» known => simp [declaredType, known]
  | cast | numeric | shift | comparison | equality => rfl

theorem runtimeType_integer {e : Expr} : ∀ {T : ExprType}, HasType ρ.scope e T →
    (runtimeType ρ.scope e).isInteger = T.isInteger := by
  intro T h
  induction h with
  | intLiteral fits | «variable» known | cast | comparison | equality => rfl
  | numeric _ _ _ _ ihLeft ihRight | shift _ _ _ ihLeft ihRight =>
    revert ihLeft ihRight
    simp only [runtimeType]
    cases runtimeType ρ.scope _ <;> cases runtimeType ρ.scope _ <;> simp [ExprType.isInteger]

theorem agrees_of_means {e : Expr} {T : ExprType} (h : HasType ρ.scope e T) (hmeans : Means ρ e T) :
    Agrees ρ e := by
  obtain ⟨hnative, hwasm⟩ := hmeans
  cases hdenote : denote ρ e with
  | none =>
    rw [hdenote] at hnative hwasm
    exact Or.inr ⟨hnative, hwasm⟩
  | some a =>
    rw [hdenote] at hnative hwasm
    obtain ⟨c, hc, hrepresents⟩ := hnative
    obtain ⟨v, hv, hvalue, _⟩ := hwasm
    refine Or.inl ⟨c, v, hc, hv, hvalue.trans hrepresents.value.symm, ?_⟩
    rw [hrepresents.value]
    cases hliteral : e.isLiteral with
    | false =>
      rw [declaredType_eq h hliteral]
      exact hrepresents.fits
    | true =>
      cases e with
      | intLiteral value =>
        cases hdenote
        exact value.2
      | _ => cases hliteral

/-! ## One node -/

theorem checked_of_interpreted {op : BinaryOp} {f w : IntFormat} {a b z : Int}
    (hop : op = .add ∨ op = .subtract ∨ op = .multiply) (h : op.interpreted w a b = some z)
    (hfits : f.Fits z) : op.checked f a b = some z := by
  have hexact : ∀ {x : Int}, (if w.Fits a ∧ w.Fits b then given (w.Fits x) x else none) = some z →
      given (f.Fits x) x = some z := fun {x} h => by
    unfold given at h ⊢
    split_ifs at h
    cases h
    exact if_pos hfits
  rcases hop with rfl | rfl | rfl
  all_goals exact hexact h

/-- **Agreement at an operator.**  The C program computes the checked operation, or wraps where it has
no result; the interpreter computes its own. -/
theorem node_agrees {op : BinaryOp} {w : IntFormat} {a b : Int} {S T : ExprType}
    {x : Outcome CInt} {v : Except String Value}
    (hwasm : WasmYields S v (op.interpreted w a b))
    (hnative : Wraps op T.format a b → NativeYields false T x (op.checked T.format a b))
    (hwraps : ¬ Wraps op T.format a b → ¬ x.Exits) :
    (OpAgrees op T.format w a b → NativeYields false T x (op.checked T.format a b) ∧
      WasmYields S v (op.checked T.format a b)) ∧
    (AgreesAs T x v → OpAgrees op T.format w a b) := by
  constructor
  · intro h
    obtain ⟨hsame, hresult⟩ := opAgrees_iff.mp h
    exact ⟨hnative hresult, hsame ▸ hwasm⟩
  intro h
  rw [opAgrees_iff]
  rcases h with ⟨c, value, rfl, rfl, hvalue, hfits⟩ | ⟨hexits, message, rfl⟩
  · -- both have a value: the interpreter's is the exact one
    cases hinterpreted : op.interpreted w a b with
    | none =>
      rw [hinterpreted] at hwasm
      obtain ⟨message, hmessage⟩ := hwasm
      cases hmessage
    | some z =>
      rw [hinterpreted] at hwasm
      obtain ⟨_, hok, rfl, _⟩ := hwasm
      cases hok
      rw [hvalue] at hinterpreted ⊢
      by_cases hresult : Wraps op T.format a b
      · refine ⟨?_, hresult⟩
        have hyields := hnative hresult
        cases hchecked : op.checked T.format a b with
        | none =>
          rw [hchecked] at hyields
          exact absurd hyields (Outcome.not_exits_value c)
        | some r =>
          rw [hchecked] at hyields
          obtain ⟨_, hc, hrepresents⟩ := hyields
          cases hc
          rw [hrepresents.value]
      · unfold Wraps at hresult
        push Not at hresult
        obtain ⟨_, hop, hnone⟩ := hresult
        rw [checked_of_interpreted hop hinterpreted hfits] at hnone
        cases hnone
  · -- both stop
    have hresult : Wraps op T.format a b := by
      by_contra hnot
      exact hwraps hnot hexits
    refine ⟨?_, hresult⟩
    have hyields := hnative hresult
    cases hinterpreted : op.interpreted w a b with
    | some z =>
      rw [hinterpreted] at hwasm
      obtain ⟨_, hok, _⟩ := hwasm
      cases hok
    | none =>
      cases hchecked : op.checked T.format a b with
      | none => rfl
      | some r =>
        rw [hchecked] at hyields
        obtain ⟨c, rfl, _⟩ := hyields
        exact absurd hexits (Outcome.not_exits_value c)

/-! ## Binary expressions -/

section Binary

variable {left right : Expr} {op : BinaryOp} {Tl Tr : ExprType}

theorem binary_stops (T : ExprType) (hleft : Means ρ left Tl) (hright : Means ρ right Tr)
    (hnone : denote ρ left = none ∨ denote ρ right = none) :
    Means ρ (.binary left op right T) T ∧ NodeAgrees ρ (.binary left op right T) := by
  obtain ⟨hnativeLeft, hwasmLeft⟩ := hleft
  obtain ⟨hnativeRight, hwasmRight⟩ := hright
  have hdenote : denote ρ (.binary left op right T) = none := by
    rcases hnone with h | h
    · simp [denote, h]
    · cases hl : denote ρ left <;> simp [denote, h, hl]
  refine ⟨⟨?_, ?_⟩, ?_⟩
  · rw [hdenote, evalNative_binary]
    cases hl : denote ρ left with
    | none =>
      rw [hl] at hnativeLeft
      obtain ⟨message, h⟩ := hnativeLeft
      exact ⟨message, by rw [h]; rfl⟩
    | some a =>
      rw [hl] at hnativeLeft
      obtain ⟨c, hc, _⟩ := hnativeLeft
      rw [hnone.resolve_left (by simp [hl])] at hnativeRight
      obtain ⟨message, h⟩ := hnativeRight
      exact ⟨message, by rw [hc, h]; rfl⟩
  · rw [hdenote, evalWasm]
    cases hl : denote ρ left with
    | none =>
      rw [hl] at hwasmLeft
      obtain ⟨message, h⟩ := hwasmLeft
      exact ⟨message, by rw [h]; rfl⟩
    | some a =>
      rw [hl] at hwasmLeft
      obtain ⟨v, hv, _⟩ := hwasmLeft
      rw [hnone.resolve_left (by simp [hl])] at hwasmRight
      obtain ⟨message, h⟩ := hwasmRight
      exact ⟨message, by rw [hv, h]; rfl⟩
  · simp only [NodeAgrees]
    rcases hnone with h | h
    · simp [h]
    · cases denote ρ left <;> simp [h]

theorem binary_agrees {T : ExprType} {a b : Int} {x y : CInt} {v u : Value}
    (ha : denote ρ left = some a) (hb : denote ρ right = some b)
    (hx : evalNative ρ left = .value x) (hy : evalNative ρ right = .value y)
    (hv : evalWasm ρ left = .ok v) (hu : evalWasm ρ right = .ok u)
    (hwasm : WasmYields (runtimeType ρ.scope (.binary left op right T)) (evalBinary v op u)
      (op.interpreted (pairFormat ρ.scope left right) a b))
    (hnative : Wraps op T.format a b →
      NativeYields false T (emittedBinary op T x y) (op.checked T.format a b))
    (hwraps : ¬ Wraps op T.format a b → ¬ (emittedBinary op T x y).Exits) :
    (NodeAgrees ρ (.binary left op right T) → Means ρ (.binary left op right T) T) ∧
      (Agrees ρ (.binary left op right T) → NodeAgrees ρ (.binary left op right T)) := by
  have hevalNative : evalNative ρ (.binary left op right T) = emittedBinary op T x y := by
    rw [evalNative_binary, hx, hy]
    rfl
  have hevalWasm : evalWasm ρ (.binary left op right T) = evalBinary v op u := by
    rw [evalWasm, hv, hu]
    rfl
  have hdenote : denote ρ (.binary left op right T) = op.checked T.format a b := by
    simp [denote, ha, hb]
  have hnode : NodeAgrees ρ (.binary left op right T) ↔
      OpAgrees op T.format (pairFormat ρ.scope left right) a b := by
    simp only [NodeAgrees, ha, hb]
  obtain ⟨hmeans, hagrees⟩ := node_agrees hwasm hnative hwraps
  rw [hnode]
  constructor
  · intro h
    obtain ⟨hn, hw⟩ := hmeans h
    refine ⟨?_, ?_⟩
    · rw [hevalNative, hdenote]
      exact hn
    · rw [hevalWasm, hdenote]
      exact hw
  · intro h
    refine hagrees ?_
    rw [Agrees, hevalNative, hevalWasm] at h
    exact h

end Binary

/-! ## All nodes -/

theorem integer_value {e : Expr} {t : IntType} (h : HasType ρ.scope e (.integer t)) {v : Value}
    (hv : v.type = runtimeType ρ.scope e) :
    ∃ n, v = .integer n ∧ runtimeType ρ.scope e = .integer n.type := by
  have hinteger := runtimeType_integer h
  rw [← hv] at hinteger
  cases v with
  | integer n => exact ⟨n, rfl, hv.symm⟩
  | bool b => cases hinteger

theorem wrapsInC_of_not_wraps {op : BinaryOp} {t : IntType} {a b : Int}
    (h : ¬ Wraps op t.format a b) : wrapsInC op t = true := by
  unfold Wraps at h
  push Not at h
  obtain ⟨hsigned, hop, _⟩ := h
  rcases hop with rfl | rfl | rfl <;> simp [wrapsInC, hsigned]

theorem numeric_native {op : BinaryOp} {t : IntType} {l r : Bool} {a b : Int} {x y : CInt}
    (hop : op.isArithmetic = true ∨ op.isBitwise = true) (hliterals : Anchored t l r)
    (hx : Represents l (.integer t) a x) (hy : Represents r (.integer t) b y) :
    (Wraps op t.format a b →
      NativeYields false (.integer t) (emittedBinary op (.integer t) x y)
        (op.checked t.format a b)) ∧
    (¬ Wraps op t.format a b → ¬ (emittedBinary op (.integer t) x y).Exits) := by
  refine ⟨fun hresult => ?_, fun hresult => wrapping_not_exits (wrapsInC_of_not_wraps hresult)⟩
  cases hwraps : wrapsInC op t with
  | true =>
    have hwraps' := hwraps
    simp only [wrapsInC, Bool.and_eq_true, Bool.not_eq_true', Bool.or_eq_true, beq_iff_eq,
      or_assoc] at hwraps
    have hsome := hresult hwraps.1 hwraps.2
    obtain ⟨z, hz⟩ := Option.ne_none_iff_exists'.mp hsome
    rw [hz]
    exact wrapping_yields hliterals hx hy hwraps' hz
  | false =>
    rcases hop with harith | hbit
    · exact arithmetic_yields harith hwraps hx.value hy.value hx.fits hy.fits
    · exact bitwise_yields hliterals hx hy hbit

theorem operation_wasm {left right : Expr} {op : BinaryOp} (hop : op.isComparison = false)
    {n m : IntValue} (hn : runtimeType ρ.scope left = .integer n.type)
    (hm : runtimeType ρ.scope right = .integer m.type) (t : IntType) :
    WasmYields (runtimeType ρ.scope (.binary left op right (.integer t)))
      (evalBinary (.integer n) op (.integer m))
      (op.interpreted (pairFormat ρ.scope left right) n.value m.value) := by
  have htype : runtimeType ρ.scope (.binary left op right (.integer t)) =
      .integer (pairType n.type m.type) := by simp only [runtimeType, hn, hm]
  have hformat : pairFormat ρ.scope left right = (pairType n.type m.type).format := by
    simp only [pairFormat, hn, hm]
  have heval : evalBinary (.integer n) op (.integer m) = numericOperation (.integer n) op (.integer m) := by
    cases op <;> first
      | rfl
      | cases hop
  rw [htype, hformat, heval]
  exact numericOperation_yields n m hop

theorem comparison_wasm {left right : Expr} {op : BinaryOp} (hop : op.isComparison = true)
    {n m : IntValue} (hn : runtimeType ρ.scope left = .integer n.type)
    (hm : runtimeType ρ.scope right = .integer m.type) :
    WasmYields (runtimeType ρ.scope (.binary left op right .bool))
      (evalBinary (.integer n) op (.integer m))
      (op.interpreted (pairFormat ρ.scope left right) n.value m.value) := by
  have hformat : pairFormat ρ.scope left right = (pairType n.type m.type).format := by
    simp only [pairFormat, hn, hm]
  show WasmYields .bool _ _
  cases hequality : op.isEquality with
  | true => exact equality_yields_wasm hequality (valuesEqual_integer n m) _
  | false =>
    have heval : evalBinary (.integer n) op (.integer m) =
        Value.bool <$> compareValues (.integer n) op (.integer m) := by
      cases op <;> first
        | rfl
        | exact absurd hop (by decide)
        | exact absurd hequality (by decide)
    rw [hformat, heval]
    exact order_yields n m hop hequality

theorem wraps_of_comparison {op : BinaryOp} (hop : op.isComparison = true) (f : IntFormat)
    (a b : Int) : Wraps op f a b := by
  rintro - (rfl | rfl | rfl) <;> cases hop

/-- **One step of the comparison**: an operator, whose operands both back ends give their meaning. -/
theorem binary_step {left right : Expr} {op : BinaryOp} {T : ExprType}
    (h : HasType ρ.scope (.binary left op right T) T)
    (hleft : ∀ {Tl}, HasType ρ.scope left Tl → Means ρ left Tl)
    (hright : ∀ {Tr}, HasType ρ.scope right Tr → Means ρ right Tr) :
    (NodeAgrees ρ (.binary left op right T) → Means ρ (.binary left op right T) T) ∧
      (Agrees ρ (.binary left op right T) → NodeAgrees ρ (.binary left op right T)) := by
  -- the operands of all rules have a type each; without a meaning, they stop both
  obtain ⟨Tl, Tr, hTl, hTr⟩ : ∃ Tl Tr, HasType ρ.scope left Tl ∧ HasType ρ.scope right Tr := by
    cases h <;> exact ⟨_, _, ‹_›, ‹_›⟩
  by_cases hnone : denote ρ left = none ∨ denote ρ right = none
  · obtain ⟨hmeans, hnode⟩ := binary_stops T (hleft hTl) (hright hTr) hnone
    exact ⟨fun _ => hmeans, fun _ => hnode⟩
  push Not at hnone
  obtain ⟨a, ha⟩ := Option.ne_none_iff_exists'.mp hnone.1
  obtain ⟨b, hb⟩ := Option.ne_none_iff_exists'.mp hnone.2
  -- what the two operands are, in the types a rule gives them
  have hoperands : ∀ {Sl Sr : ExprType}, HasType ρ.scope left Sl → HasType ρ.scope right Sr →
      ∃ x y v u, evalNative ρ left = .value x ∧ evalNative ρ right = .value y ∧
        evalWasm ρ left = .ok v ∧ evalWasm ρ right = .ok u ∧
        Represents left.isLiteral Sl a x ∧ Represents right.isLiteral Sr b y ∧
        v.toInt = a ∧ u.toInt = b ∧ v.type = runtimeType ρ.scope left ∧
        u.type = runtimeType ρ.scope right := fun {Sl Sr} hSl hSr => by
    obtain ⟨hnl, hwl⟩ := hleft hSl
    obtain ⟨hnr, hwr⟩ := hright hSr
    rw [ha] at hnl hwl
    rw [hb] at hnr hwr
    obtain ⟨x, hx, hrx⟩ := hnl
    obtain ⟨y, hy, hry⟩ := hnr
    obtain ⟨v, hv, hva, hvt⟩ := hwl
    obtain ⟨u, hu, hub, hut⟩ := hwr
    exact ⟨x, y, v, u, hx, hy, hv, hu, hrx, hry, hva, hub, hvt, hut⟩
  cases h with
  | numeric hop hl hr hliterals =>
    obtain ⟨x, y, v, u, hx, hy, hv, hu, hrx, hry, hva, hub, hvt, hut⟩ := hoperands hl hr
    obtain ⟨n, rfl, hn⟩ := integer_value hl hvt
    obtain ⟨m, rfl, hm⟩ := integer_value hr hut
    have hcomparison : op.isComparison = false := by
      cases op <;> simp_all [BinaryOp.isArithmetic, BinaryOp.isBitwise, BinaryOp.isComparison]
    obtain ⟨hnative, hwraps⟩ := numeric_native hop hliterals hrx hry
    refine binary_agrees ha hb hx hy hv hu ?_ hnative hwraps
    rw [← hva, ← hub]
    exact operation_wasm hcomparison hn hm _
  | shift hop hl hr =>
    obtain ⟨x, y, v, u, hx, hy, hv, hu, hrx, hry, hva, hub, hvt, hut⟩ := hoperands hl hr
    obtain ⟨n, rfl, hn⟩ := integer_value hl hvt
    obtain ⟨m, rfl, hm⟩ := integer_value hr hut
    have hcomparison : op.isComparison = false := by
      cases op <;> simp_all [BinaryOp.isShift, BinaryOp.isComparison]
    refine binary_agrees ha hb hx hy hv hu ?_
      (fun _ => shift_yields hop hrx.value hry.value hrx.fits hry.fits) (fun hresult => ?_)
    · rw [← hva, ← hub]
      exact operation_wasm hcomparison hn hm _
    · have hwraps := wrapsInC_of_not_wraps hresult
      cases op <;> simp_all [wrapsInC, BinaryOp.isShift]
  | comparison hop hl hr hliterals =>
    obtain ⟨x, y, v, u, hx, hy, hv, hu, hrx, hry, hva, hub, hvt, hut⟩ := hoperands hl hr
    obtain ⟨n, rfl, hn⟩ := integer_value hl hvt
    obtain ⟨m, rfl, hm⟩ := integer_value hr hut
    refine binary_agrees ha hb hx hy hv hu ?_
      (fun _ => comparison_yields hliterals hrx hry hop _)
      (fun hresult => absurd (wraps_of_comparison hop _ a b) hresult)
    rw [← hva, ← hub]
    exact comparison_wasm hop hn hm
  | equality hop hl hr =>
    obtain ⟨x, y, v, u, hx, hy, hv, hu, hrx, hry, hva, hub, hvt, hut⟩ := hoperands hl hr
    have hcomparison : op.isComparison = true := by
      cases op <;> first
        | rfl
        | cases hop
    have hbool : ∀ {k : Expr} {z : Value}, HasType ρ.scope k .bool →
        z.type = runtimeType ρ.scope k → ∃ c, z = .bool c := fun {k z} hk hz => by
      have hinteger := runtimeType_integer hk
      rw [← hz] at hinteger
      cases z with
      | integer n => cases hinteger
      | bool c => exact ⟨c, rfl⟩
    obtain ⟨c, rfl⟩ := hbool hl hvt
    obtain ⟨d, rfl⟩ := hbool hr hut
    refine binary_agrees ha hb hx hy hv hu ?_ (fun _ => equality_yields hrx hry hop _)
      (fun hresult => absurd (wraps_of_comparison hcomparison _ a b) hresult)
    rw [← hva, ← hub]
    exact equality_yields_wasm hop (valuesEqual_bool c d) _

theorem cast_step {expr : Expr} {source target : IntType}
    (h : HasType ρ.scope expr (.integer source)) (hexpr : Means ρ expr (.integer source)) :
    (NodeAgrees ρ (.cast expr target) → Means ρ (.cast expr target) (.integer target)) ∧
      (Agrees ρ (.cast expr target) → NodeAgrees ρ (.cast expr target)) := by
  obtain ⟨hnative, hwasm⟩ := hexpr
  have hevalNative : evalNative ρ (.cast expr target) =
      (do return CInt.ofInt (cType target) (← evalNative ρ expr).value) := rfl
  have hevalWasm : evalWasm ρ (.cast expr target) = (do (← evalWasm ρ expr).coerce (.integer target)) := rfl
  cases hdenote : denote ρ expr with
  | none =>
    rw [hdenote] at hnative hwasm
    obtain ⟨message, hexit⟩ := hnative
    obtain ⟨text, herror⟩ := hwasm
    have hnone : denote ρ (.cast expr target) = none := by simp [denote, hdenote]
    refine ⟨fun _ => ⟨?_, ?_⟩, fun _ => ?_⟩
    · rw [hnone, hevalNative, hexit]
      exact ⟨message, rfl⟩
    · rw [hnone, hevalWasm, herror]
      exact ⟨text, rfl⟩
    · simp [NodeAgrees, hdenote]
  | some a =>
    rw [hdenote] at hnative hwasm
    obtain ⟨c, hc, hrepresents⟩ := hnative
    obtain ⟨v, hv, hvalue, htype⟩ := hwasm
    obtain ⟨n, rfl, hn⟩ := integer_value h htype
    have hna : n.value = a := hvalue
    have hcoerce : evalWasm ρ (.cast expr target) = Value.integer <$> n.coerce target := by
      rw [hevalWasm, hv]
      rfl
    have hnode : NodeAgrees ρ (.cast expr target) ↔ target.format.Fits a := by
      simp only [NodeAgrees, hdenote]
    rw [hnode]
    constructor
    · intro hfits
      have hsome : denote ρ (.cast expr target) = some a := by
        simp [denote, hdenote, given, hfits]
      refine ⟨?_, ?_⟩
      · rw [hsome, hevalNative, hc]
        exact cast_yields hrepresents.value hfits
      · rw [hsome, hcoerce, coerce_of_fits n (hna ▸ hfits)]
        exact ⟨_, rfl, hna, rfl⟩
    · intro hagrees
      by_contra hfits
      obtain ⟨message, hmessage⟩ := coerce_of_not_fits n (t := target) (by rwa [hna])
      rw [Agrees, hcoerce, hmessage, hevalNative, hc] at hagrees
      -- the interpreter stops, and the C program does not
      rcases hagrees with ⟨_, _, _, hok, _⟩ | ⟨hexits, _⟩
      · cases hok
      · exact Outcome.not_exits_value _ hexits

/-- **Both back ends compute the meaning of an expression all of whose nodes allow it.** -/
theorem means_of_nodeAgrees {e : Expr} : ∀ {T : ExprType}, HasType ρ.scope e T →
    (∀ s ∈ e.subexpressions, NodeAgrees ρ s) → Means ρ e T := by
  induction e with
  | intLiteral value =>
    intro T h _
    cases h with
    | intLiteral fits => exact ⟨emitIntLiteral_yields ρ fits, ⟨_, rfl, rfl, rfl⟩⟩
  | «variable» name =>
    intro T h _
    cases h with
    | «variable» known =>
      obtain ⟨v, hv, rfl⟩ := Option.map_eq_some_iff.mp known
      have hdenote : denote ρ (.variable name) = some v.value := by simp [denote, hv]
      refine ⟨?_, ?_⟩
      · rw [hdenote]
        exact variable_yields ρ hv
      · rw [hdenote]
        refine ⟨.integer v, ?_, rfl, ?_⟩
        · simp only [evalWasm, hv]
        · simp [Value.type, runtimeType, known]
  | cast expr target ih =>
    intro T h hnodes
    cases h with
    | cast operand =>
      refine (cast_step operand (ih operand fun s hs => hnodes s ?_)).1
        (hnodes _ (Expr.mem_subexpressions_self _))
      exact List.mem_cons_of_mem _ hs
  | binary left op right valueType ihLeft ihRight =>
    intro T h hnodes
    have hT : T = valueType := by cases h <;> rfl
    subst hT
    have hleft : ∀ {Tl}, HasType ρ.scope left Tl → Means ρ left Tl := fun hTl =>
      ihLeft hTl fun s hs => hnodes s (by simp [Expr.subexpressions, hs])
    have hright : ∀ {Tr}, HasType ρ.scope right Tr → Means ρ right Tr := fun hTr =>
      ihRight hTr fun s hs => hnodes s (by simp [Expr.subexpressions, hs])
    exact (binary_step h hleft hright).1 (hnodes _ (Expr.mem_subexpressions_self _))

theorem hasType_of_mem {Γ : Scope} {e : Expr} {T : ExprType} (h : HasType Γ e T) :
    ∀ s ∈ e.subexpressions, ∃ S, HasType Γ s S := by
  induction h with
  | intLiteral fits =>
    intro s hs
    rw [Expr.subexpressions, List.mem_singleton] at hs
    subst hs
    exact ⟨_, .intLiteral fits⟩
  | «variable» known =>
    intro s hs
    rw [Expr.subexpressions, List.mem_singleton] at hs
    subst hs
    exact ⟨_, .variable known⟩
  | cast operand ih =>
    intro s hs
    rcases List.mem_cons.mp hs with rfl | hs
    · exact ⟨_, .cast operand⟩
    · exact ih s hs
  | numeric hop hl hr hliterals ihLeft ihRight =>
    intro s hs
    rcases List.mem_cons.mp hs with rfl | hs
    · exact ⟨_, .numeric hop hl hr hliterals⟩
    · exact (List.mem_append.mp hs).elim (ihLeft s) (ihRight s)
  | shift hop hl hr ihLeft ihRight =>
    intro s hs
    rcases List.mem_cons.mp hs with rfl | hs
    · exact ⟨_, .shift hop hl hr⟩
    · exact (List.mem_append.mp hs).elim (ihLeft s) (ihRight s)
  | comparison hop hl hr hliterals ihLeft ihRight =>
    intro s hs
    rcases List.mem_cons.mp hs with rfl | hs
    · exact ⟨_, .comparison hop hl hr hliterals⟩
    · exact (List.mem_append.mp hs).elim (ihLeft s) (ihRight s)
  | equality hop hl hr ihLeft ihRight =>
    intro s hs
    rcases List.mem_cons.mp hs with rfl | hs
    · exact ⟨_, .equality hop hl hr⟩
    · exact (List.mem_append.mp hs).elim (ihLeft s) (ihRight s)

theorem mem_subexpressions_trans {e s : Expr} (hs : s ∈ e.subexpressions) :
    ∀ r ∈ s.subexpressions, r ∈ e.subexpressions := by
  induction e with
  | intLiteral value | «variable» name =>
    rw [Expr.subexpressions, List.mem_singleton] at hs
    exact fun r hr => hs ▸ hr
  | cast expr target ih =>
    intro r hr
    rcases List.mem_cons.mp hs with rfl | hs
    · exact hr
    · exact List.mem_cons_of_mem _ (ih hs r hr)
  | binary left op right valueType ihLeft ihRight =>
    intro r hr
    rcases List.mem_cons.mp hs with rfl | hs
    · exact hr
    · refine List.mem_cons_of_mem _ (List.mem_append.mpr ?_)
      exact (List.mem_append.mp hs).imp (fun h => ihLeft h r hr) (fun h => ihRight h r hr)

/-- Agreement in all parts gives the condition at every node: the parts of a node have their meaning
already when the node itself is looked at. -/
theorem nodeAgrees_of_agrees {e : Expr} : ∀ {T : ExprType}, HasType ρ.scope e T →
    (∀ s ∈ e.subexpressions, Agrees ρ s) → ∀ s ∈ e.subexpressions, NodeAgrees ρ s := by
  induction e with
  | intLiteral value | «variable» name =>
    intro T _ _ s hs
    rw [Expr.subexpressions, List.mem_singleton] at hs
    subst hs
    trivial
  | cast expr target ih =>
    intro T h hagrees s hs
    cases h with
    | cast operand =>
      have hexpr := ih operand fun s hs => hagrees s (List.mem_cons_of_mem _ hs)
      rcases List.mem_cons.mp hs with rfl | hs
      · exact (cast_step operand (means_of_nodeAgrees operand hexpr)).2
          (hagrees _ (Expr.mem_subexpressions_self _))
      · exact hexpr s hs
  | binary left op right valueType ihLeft ihRight =>
    intro T h hagrees s hs
    have hT : T = valueType := by cases h <;> rfl
    subst hT
    have hleft : ∀ {Tl}, HasType ρ.scope left Tl → ∀ s ∈ left.subexpressions, NodeAgrees ρ s :=
      fun hTl => ihLeft hTl fun s hs => hagrees s (by simp [Expr.subexpressions, hs])
    have hright : ∀ {Tr}, HasType ρ.scope right Tr → ∀ s ∈ right.subexpressions, NodeAgrees ρ s :=
      fun hTr => ihRight hTr fun s hs => hagrees s (by simp [Expr.subexpressions, hs])
    rcases List.mem_cons.mp hs with rfl | hs
    · exact (binary_step h (fun hTl => means_of_nodeAgrees hTl (hleft hTl))
        (fun hTr => means_of_nodeAgrees hTr (hright hTr))).2
        (hagrees _ (Expr.mem_subexpressions_self _))
    · obtain ⟨⟨Sl, hSl⟩, ⟨Sr, hSr⟩⟩ :
          (∃ S, HasType ρ.scope left S) ∧ ∃ S, HasType ρ.scope right S := by
        cases h <;> exact ⟨⟨_, ‹_›⟩, ⟨_, ‹_›⟩⟩
      exact (List.mem_append.mp hs).elim (hleft hSl s) (hright hSr s)

/-- **An expression is evaluated alike, in all its parts, just if every node allows it.** -/
theorem backEnds_agree_iff {ρ : Store} {source : AstExpr} {expected : Option ExprType} {T : ExprType}
    {e : Expr} (h : lowerExpr ρ.scope source expected = .ok (T, e)) :
    (∀ s ∈ e.subexpressions, Agrees ρ s) ↔ ∀ s ∈ e.subexpressions, NodeAgrees ρ s := by
  have htype := lowerExpr_hasType source h
  constructor
  · exact nodeAgrees_of_agrees htype
  · intro hnodes s hs
    obtain ⟨S, hS⟩ := hasType_of_mem htype s hs
    refine agrees_of_means hS (means_of_nodeAgrees hS fun r hr => hnodes r ?_)
    exact mem_subexpressions_trans hs r hr

/-! ## Where they do not -/

/-- A variable `x` of type `u32` with its greatest value. -/
def greatestStore : Store := fun name =>
  if name = "x" then some ⟨.u32, 4294967295, by decide⟩ else none

/-- `x op 1`. -/
def withOne (op : BinaryOp) : AstExpr :=
  .binary (.variable "x") op (.int ⟨1, by decide⟩)

/-- `x op 1`, lowered. -/
def withOneLowered (op : BinaryOp) : Expr :=
  .binary (.variable "x") op (.intLiteral ⟨1, by decide⟩) (.integer .u32)

theorem lowerExpr_withOne :
    lowerExpr greatestStore.scope (withOne .subtract) none =
      .ok (.integer .u32, withOneLowered .subtract) ∧
    lowerExpr greatestStore.scope (withOne .add) none =
      .ok (.integer .u32, withOneLowered .add) := by
  constructor <;> decide

theorem backEnds_agree_iff_withOne :
    lowerExpr greatestStore.scope (withOne .subtract) none =
        .ok (.integer .u32, withOneLowered .subtract) ∧
      ∀ s ∈ (withOneLowered .subtract).subexpressions, Agrees greatestStore s := by
  refine ⟨lowerExpr_withOne.1, (backEnds_agree_iff lowerExpr_withOne.1).mpr ?_⟩
  simp only [withOneLowered, Expr.subexpressions, List.cons_append, List.nil_append,
    List.mem_cons, List.not_mem_nil, or_false, forall_eq_or_imp, forall_eq]
  refine ⟨?_, trivial, trivial⟩
  show OpAgrees .subtract IntType.u32.format IntType.u32.format 4294967295 1
  decide

/-- `x + 1` is zero in C and stops the interpreter. -/
theorem backEnds_disagree : ¬ ∀ (ρ : Store) (source : AstExpr) (expected : Option ExprType)
    (T : ExprType) (e : Expr), lowerExpr ρ.scope source expected = .ok (T, e) →
    (∃ c value, evalNative ρ e = .value c ∧ evalWasm ρ e = .ok value ∧ value.toInt = c.value) ∨
      ((evalNative ρ e).Exits ∧ ∃ message, evalWasm ρ e = .error message) := by
  intro h
  have hnative : evalNative greatestStore (withOneLowered .add) =
      .value ⟨.unsignedInt, 0, by decide⟩ := by decide
  have hwasm : evalWasm greatestStore (withOneLowered .add) =
      .error "integer overflow or division by zero" := by rfl
  rcases h greatestStore _ none _ _ lowerExpr_withOne.2 with ⟨_, _, _, hok, _⟩ | ⟨hexits, _⟩
  · rw [hwasm] at hok
    cases hok
  · rw [hnative] at hexits
    exact Outcome.not_exits_value _ hexits

end Nomo.Arith
