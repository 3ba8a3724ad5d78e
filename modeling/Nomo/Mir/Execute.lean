import Nomo.Mir.Arrival

/-!
# The simulation

An annotated body and the body it was made from, run in related settings, do the same and never
reach a marked store whose buffer is shared.  Each statement is followed through its block: it
starts in `Arrive` at that block and ends in `Ends`, which is `Arrive` at the block its signal leads
to.  The induction is on fuel; `Executes n` collects the statement for each of the mutually
recursive execution functions, and the lemmas of this file are its step, one for each kind of
statement.
-/

namespace Nomo.Mir

open Nomo.Ir Nomo.Lib Nomo.Lib.RefCount

/-- The targets of the body of a loop with header `b`. -/
def loopTargets (b : Nat) (targets : Targets) : Targets :=
  { next := b, breakTarget := some targets.next, continueTarget := some b }

/-- Running one statement. -/
def StatementSpec (g₁ g₂ : Setting) (n : Nat) : Prop :=
  ∀ (F : Flow) (s : Statement) id b targets Γ S L,
      F.Single → Follows F s id b targets → s.checkedCow = true →
    F.Scoped Γ (statementBindings s) →
    Agrees Bad (F.Arrive b Γ S L) (exec g₁ n (annotateStatement F.proven s id)) (exec g₂ n s)
      fun signal m => ∃ Δ : List String,
        (∀ x, Δ.count x ≤ ((statementBindings s).map Prod.fst).count x) ∧
          Ends F targets (Δ ++ Γ) S L signal m

/-- Running the statements of a body, with calls that have been deferred. -/
def StatementsSpec (g₁ g₂ : Setting) (n : Nat) : Prop :=
  ∀ (F : Flow) (body : List Statement) id b targets (deferred : List DeferredCall) Γ S L, F.Single →
    FollowsBody F body id b targets → bodyCheckedCow body = true →
    F.Scoped Γ (collectBindings body) → (deferred ≠ [] → F.eligible = []) →
    (∀ call ∈ deferred, call.operand.checkedCow = true) →
    Agrees Bad (F.Arrive b Γ S L) (execAll g₁ n (annotateBody F.proven body id).1 deferred)
      (execAll g₂ n body deferred) fun r m =>
        ((r.2 ≠ [] → F.eligible = []) ∧ ∀ call ∈ r.2, call.operand.checkedCow = true) ∧
          ∃ Δ : List String, Ends F targets (Δ ++ Γ) S L r.1 m

/-- Running a block. -/
def BlockSpec (g₁ g₂ : Setting) (n : Nat) : Prop :=
  ∀ (F : Flow) (body : List Statement) id b targets Γ S L,
    F.Single → FollowsBody F body id b targets →
    bodyCheckedCow body = true → F.Scoped Γ (collectBindings body) →
    Agrees Bad (F.Arrive b Γ S L) (execBlock g₁ n (annotateBody F.proven body id).1)
      (execBlock g₂ n body) (Ends F targets Γ S L)

/-- Running the arm of a match. -/
def ArmSpec (g₁ g₂ : Setting) (n : Nat) : Prop :=
  ∀ (F : Flow) (arms : List MatchStatementArm) (variant : String) id b operations targets Γ S L,
    F.Single → FollowsBranches F (arms.map MatchStatementArm.body) id b operations targets →
    armsCheckedCow arms = true →
    (∀ body ∈ arms.map MatchStatementArm.body, F.Scoped Γ (collectBindings body)) →
    Agrees Bad (F.Ready b operations Γ S L)
      (execArm g₁ n (annotateArms F.proven arms id).1 variant) (execArm g₂ n arms variant)
      (Ends F targets Γ S L)

/-- Running deferred calls, in a function without tracked arrays. -/
def DeferredSpec (g₁ g₂ : Setting) (n : Nat) : Prop :=
  ∀ (deferred : List DeferredCall) Γ S L,
    (∀ call ∈ deferred, call.operand.checkedCow = true) →
    Keeps Γ (fun _ => false) S L (runDeferred g₁ n deferred) (runDeferred g₂ n deferred) fun _ => L

/-- An assignment that leaves the variables in `X` alone. -/
def AssignSpec (g₁ g₂ : Setting) (n : Nat) : Prop :=
  ∀ (name : String) (value : ValueExpr) Γ X S L,
    value.checkedCow = true → Outside X (name :: value.touched) →
    Keeps Γ X S L (execAssign g₁ n name value) (execAssign g₂ n name value) fun _ => L

/-- A loop whose header block `b` leads to its body. -/
structure LoopFlow (F : Flow) (body : List Statement) (id b : Nat) (operations : List Operation)
    (targets : Targets) (xs Γ : List String) : Prop where
  quiet : Quiet F.eligible xs operations
  entry : ∃ b₁, F.Passes b operations b₁ ∧ FollowsBody F body id b₁ (loopTargets b targets)
  checked : bodyCheckedCow body = true
  names : F.Scoped Γ (collectBindings body)

/-- What execution with fuel `n` does, function by function. -/
structure Executes (g₁ g₂ : Setting) (n : Nat) : Prop where
  statement : StatementSpec g₁ g₂ n
  statements : StatementsSpec g₁ g₂ n
  block : BlockSpec g₁ g₂ n
  arm : ArmSpec g₁ g₂ n
  deferred : DeferredSpec g₁ g₂ n
  assign : AssignSpec g₁ g₂ n
  loop : ∀ (F : Flow) (kind : LoopKind) (body : List Statement) id b targets Γ S L, F.Single →
    Follows F (.loop kind body) id b targets → (Statement.loop kind body).checkedCow = true →
    F.Scoped Γ (statementBindings (.loop kind body)) →
    Agrees Bad (F.Arrive b Γ S L)
      (execLoop g₁ n kind (annotateBody F.proven body (id + 1)).1) (execLoop g₂ n kind body)
      (Ends F targets Γ S L)
  forever : ∀ (F : Flow) (body : List Statement) id b operations targets Γ S L, F.Single →
    LoopFlow F body id b operations targets [] Γ →
    Agrees Bad (F.Ready b operations Γ S L) (loopForever g₁ n (annotateBody F.proven body id).1)
      (loopForever g₂ n body) (Ends F targets Γ S L)
  whileTrue : ∀ (F : Flow) (condition : ValueExpr) (body : List Statement) id b operations targets
      Γ S L, F.Single → LoopFlow F body id b operations targets condition.touched Γ →
    F.Passes b operations targets.next → condition.checkedCow = true →
    Agrees Bad (F.Ready b operations Γ S L)
      (loopWhile g₁ n condition (annotateBody F.proven body id).1) (loopWhile g₂ n condition body)
      (Ends F targets Γ S L)
  cStyle : ∀ (F : Flow) (binding : String) (condition update : ValueExpr) (body : List Statement)
      id b operations targets Γ S L, F.Single →
    LoopFlow F body id b operations targets (condition.touched ++ update.touched) Γ →
    F.Passes b operations targets.next → condition.checkedCow = true →
    update.checkedCow = true → F.Clear b binding →
    Agrees Bad (F.Ready b operations Γ S L)
      (loopCStyle g₁ n binding condition update (annotateBody F.proven body id).1)
      (loopCStyle g₂ n binding condition update body) (Ends F targets Γ S L)
  iterate : ∀ (F : Flow) (binding : String) (h i : Nat) (body : List Statement) id b operations
      targets Γ S L, F.Single →
    LoopFlow F body id b operations targets [] (binding :: Γ) →
    F.Passes b operations targets.next → (binding, some b) ∈ F.headers → F.Clear b binding →
    Agrees Bad (F.Ready b operations Γ S (tally [h] + L))
      (loopIterate g₁ n binding h i (annotateBody F.proven body id).1)
      (loopIterate g₂ n binding h i body) (Ends F targets Γ S (tally [h] + L))

theorem Executes.zero (g₁ g₂ : Setting) : Executes g₁ g₂ 0 := by
  constructor <;> intro <;> intros <;> exact outOfFuel_spec

section Step

variable {opt : Function → Function} {g₁ g₂ : Setting} {n : Nat} {F : Flow}

/-! ## Expressions as statements use them -/

theorem eval_fresh (hv : ∀ k < n, Evaluates g₁ g₂ k) (value : ValueExpr)
    (hfresh : (∃ t, value = .arrayNew t) ∨ ∃ elements t, value = .arrayLiteral elements t)
    (Γ : List String) (X : String → Bool) (S : Nat → Prop) (L : Nat → Nat)
    (hc : value.checkedCow = true) (ht : Outside X value.touched) :
    Agrees Bad (At Γ X S L) (eval g₁ n value) (eval g₂ n value)
      fun v m => At Γ X S (tally v.handles + L) m ∧ Sole v m := by
  cases n with
  | zero => exact outOfFuel_spec
  | succ n =>
    have hnew : ∀ vs, Agrees Bad (At Γ X S (tally (handlesAll vs) + L))
        (do let h ← newArray vs; pure (Value.array h)) (do let h ← newArray vs; pure (Value.array h))
        fun v m => At Γ X S (tally v.handles + L) m ∧ Sole v m := fun vs =>
      Agrees.bind (newArray_spec vs) fun h => Agrees.pure _ fun m hm => ⟨hm.1, h, rfl, hm.2⟩
    rcases hfresh with ⟨t, rfl⟩ | ⟨elements, t, rfl⟩
    · exact (hnew []).fewer fun g => by simp [handlesAll]
    · exact Agrees.bind ((hv n (Nat.lt_succ_self n)).evalAll elements Γ X S L hc ht) fun vs => hnew vs

theorem eval_arraySet (hg : Related opt g₁ g₂) (hv : ∀ k < n, Evaluates g₁ g₂ k) (x : String)
    (index value : ValueExpr) (t : ValueType) (Γ : List String) (X : String → Bool)
    (S : Nat → Prop) (L : Nat → Nat)
    (hc : (ValueExpr.arraySet x index value t .checkedCow).checkedCow = true) (hx : X x = false)
    (ht : Outside X (index.touched ++ value.touched)) :
    Agrees Bad (At Γ X S L) (eval g₁ n (.arraySet x index value t .checkedCow))
      (eval g₂ n (.arraySet x index value t .checkedCow))
      fun v m => At Γ X S (tally v.handles + L) m ∧ Sole v m := by
  simp only [ValueExpr.checkedCow, Bool.and_eq_true] at hc
  cases n with
  | zero => exact outOfFuel_spec
  | succ n =>
    have hv := hv n (Nat.lt_succ_self n)
    refine Agrees.bind (hv.evalIndex index Γ X S L hc.2.1 ht.left) fun i => ?_
    refine Agrees.bind (hv.eval value Γ X S L hc.2.2 ht.right) fun v => ?_
    refine changedCopy_spec x hx fun h => ?_
    rw [hg.unmonitored]
    exact setElement_cow_spec g₁.monitor h i v

theorem evalIndices_length (g : Setting) (n : Nat) (es : List ValueExpr) (m m' : Machine)
    (is : List Nat) (h : evalIndices g n es m = .ok is m') : is.length = es.length := by
  induction es generalizing n m m' is with
  | nil =>
    cases n with
    | zero => cases h
    | succ n =>
      cases h
      rfl
  | cons e es ih =>
    cases n with
    | zero => cases h
    | succ n =>
      have h' : (evalIndex g n e >>= fun i => evalIndices g n es >>= fun is => pure (i :: is)) m
          = .ok is m' := h
      simp only [bind, EStateM.bind] at h'
      split at h'
      · rename_i i m₁ hi
        split at h'
        · rename_i js m₂ hjs
          cases h'
          simp [ih n m₁ _ js hjs]
        · cases h'
      · cases h'

/-! ## Deferred calls and assignments -/

theorem step_deferred (hg : Related opt g₁ g₂) (hv : Evaluates g₁ g₂ n)
    (ih : DeferredSpec g₁ g₂ n) : DeferredSpec g₁ g₂ (n + 1) := by
  intro deferred Γ S L hc
  cases deferred with
  | nil => exact pure_spec _ fun g => Nat.le_refl _
  | cons call deferred =>
    have hrest := ih deferred Γ S L fun c hm => hc c (List.mem_cons_of_mem _ hm)
    refine Agrees.bind (hv.eval call.operand Γ (fun _ => false) S L (hc call (by simp))
      fun _ _ => rfl) fun v => ?_
    have hwrite (newline) : Keeps Γ (fun _ => false) S (tally v.handles + L)
        (write g₁.host newline v) (write g₂.host newline v) fun _ => L := by
      rw [hg.host]
      exact write_spec _ newline v
    cases call with
    | expr e => exact Agrees.bind (discard_spec v) fun _ => hrest
    | println e | eprintln e => exact Agrees.bind (hwrite true) fun _ => hrest
    | print e | eprint e => exact Agrees.bind (hwrite false) fun _ => hrest

theorem update_spec {Γ : List String} {X : String → Bool} {S : Nat → Prop} {L K : Nat → Nat}
    {f₁ f₂ : Nat → Exec Nat} (x : String) (hx : X x = false)
    (hf : ∀ h, Agrees Bad (At Γ X S (tally [h] + (K + L))) (f₁ h) (f₂ h) (Exclusive Γ X S L)) :
    Agrees Bad (At Γ X S (K + L))
      (updateArray x fun h => do let h ← f₁ h; pure (h, ()))
      (updateArray x fun h => do let h ← f₂ h; pure (h, ())) fun _ => At Γ X S L :=
  updateArray_spec (α := Unit) (B := fun _ => L) x hx fun h =>
    Agrees.bind (hf h) fun _ => Agrees.pure _ fun _ hm => hm.1

theorem step_assign (hg : Related opt g₁ g₂) (hv : Evaluates g₁ g₂ n) :
    AssignSpec g₁ g₂ (n + 1) := by
  intro name value Γ X S L hc ht
  have hname : X name = false := ht name (by simp)
  have htouched : Outside X value.touched := fun x hx => ht x (List.mem_cons_of_mem _ hx)
  by_cases hin : inPlace name value = true
  swap
  · -- An ordinary assignment.
    have hbody (g) : execAssign g (n + 1) name value = (do
        let v ← eval g n value
        assignVariable name v) := by
      simp only [execAssign, if_neg hin]
    rw [hbody, hbody]
    exact Agrees.bind (hv.eval value Γ X S L hc htouched) fun v =>
      (assignVariable_spec name v hname).imp fun _ _ h => h.1
  · cases value with
    | arraySet x index element t mode =>
      simp only [ValueExpr.checkedCow, Bool.and_eq_true, beq_iff_eq] at hc
      obtain ⟨rfl, hci, hce⟩ := hc
      simp only [execAssign, if_pos hin]
      refine Agrees.bind (hv.evalIndex index Γ X S L hci htouched.left) fun i => ?_
      refine Agrees.bind (hv.eval element Γ X S L hce htouched.right.left) fun v => ?_
      refine update_spec name hname fun h => ?_
      rw [hg.unmonitored]
      exact setElement_cow_spec g₁.monitor h i v
    | arrayPush x element t =>
      simp only [execAssign, if_pos hin]
      refine Agrees.bind (hv.eval element Γ X S L hc htouched.left) fun v => ?_
      exact update_spec name hname fun h => pushElement_spec h v
    | arrayInsert x index element t =>
      simp only [ValueExpr.checkedCow, Bool.and_eq_true] at hc
      simp only [execAssign, if_pos hin]
      refine Agrees.bind (hv.evalIndex index Γ X S L hc.1 htouched.left) fun i => ?_
      refine Agrees.bind (hv.eval element Γ X S L hc.2 htouched.right.left) fun v => ?_
      exact update_spec name hname fun h => insertElement_spec h i v
    | arrayClear x t =>
      simp only [execAssign, if_pos hin]
      refine (update_spec (K := 0) (L := L) name hname fun h => ?_).fewer fun g => by simp
      exact (clearElements_spec h).fewer fun g => by simp
    | _ => simp [inPlace] at hin

/-! ## Blocks -/

theorem execAll_statement (g : Setting) (s : Statement) (rest : List Statement)
    (deferred : List DeferredCall) (hs : ∀ call, s ≠ .defer call) :
    execAll g (n + 1) (s :: rest) deferred = (do
      match ← exec g n s with
      | .next => execAll g n rest deferred
      | signal => pure (signal, deferred)) := by
  cases s with
  | defer call => exact absurd rfl (hs call)
  | _ => rfl

theorem annotateStatement_defer (proven : List Nat) (s : Statement) (id : Nat)
    (hs : ∀ call, s ≠ .defer call) (call : DeferredCall) :
    annotateStatement proven s id ≠ .defer call := by
  cases s with
  | defer call => exact absurd rfl (hs call)
  | assign name value =>
    cases value <;> simp [annotateStatement, annotateChildren, annotateMode]
  | ifLet binding t value variant body elseBody =>
    cases elseBody <;> simp [annotateStatement, annotateChildren, annotateMode]
  | _ => simp [annotateStatement, annotateChildren, annotateMode]

theorem step_statements (ihs : StatementSpec g₁ g₂ n) (ih : StatementsSpec g₁ g₂ n) :
    StatementsSpec g₁ g₂ (n + 1) := by
  intro F body id b targets deferred Γ S L hF hbody hc hscope hdefer hcd
  cases hbody with
  | nil =>
    refine Agrees.pure _ fun m hm => ⟨⟨hdefer, hcd⟩, [], ?_, fun t ht => ?_⟩
    · obtain ⟨s, -, hat⟩ := hm
      exact (hat.anti fun _ hx => (Bool.false_ne_true hx).elim).weaken fun g => by
        simp [Signal.handles]
    · cases ht
      exact hm
  | cons tail head =>
    rename_i s rest next
    simp only [bodyCheckedCow, Bool.and_eq_true] at hc
    rw [annotateBody_cons]
    have hscopeHead : F.Scoped Γ (statementBindings s) := hscope.mono fun x => by
      simp only [collectBindings, List.map_append, List.count_append]
      omega
    by_cases hs : ∃ call, s = .defer call
    · -- A deferred call only joins the list; its operands are noted by the block.
      obtain ⟨call, rfl⟩ := hs
      obtain ⟨proves, headers, hnext, breaks, repeats, defers, inner⟩ := head
      have hempty := defers call rfl
      refine (ih F rest _ next targets (call :: deferred) Γ S L hF tail hc.2
        (hscope.mono fun x => by simp [collectBindings, statementBindings, ownBindings])
        (fun _ => hempty) ?_).weaken ?_ fun _ _ h => h
      · intro c hm
        rcases List.mem_cons.1 hm with rfl | hm
        · exact hc.1
        · exact hcd c hm
      · intro m hm
        exact (hm.ready (statement_quiet (.defer call) id rfl)).pass (hnext rfl)
    · have hs' : ∀ call, s ≠ .defer call := fun call h => hs ⟨call, h⟩
      rw [execAll_statement g₂ s rest deferred hs', execAll_statement g₁ _ _ deferred
        (annotateStatement_defer F.proven s id hs')]
      refine Agrees.bind (ihs F s id b { targets with next := next } Γ S L hF head hc.1 hscopeHead)
        fun signal => Agrees.ofExists fun Δ => ?_
      refine Agrees.fact fun hΔ => ?_
      cases signal with
      | next =>
        refine ((ih F rest _ next targets deferred (Δ ++ Γ) S L hF tail hc.2 (hscope.mono fun x => ?_)
          hdefer hcd).weaken (fun m hm => hm.arrives next rfl) ?_)
        · have := hΔ x
          simp only [collectBindings, List.map_append, List.count_append]
          omega
        · rintro r m ⟨hr, Δ', hm⟩
          exact ⟨hr, Δ' ++ Δ, by simpa using hm⟩
      | breakLoop | continueLoop | returned v =>
        exact Agrees.pure _ fun m hm => ⟨⟨hdefer, hcd⟩, Δ, hm.counted, hm.arrives⟩

/-- Deferred calls run where nothing is tracked, so what has been arrived at stays. -/
theorem deferred_ends {targets : Targets} {Γ : List String} {S : Nat → Prop} {L : Nat → Nat}
    {signal : Signal} (ih : DeferredSpec g₁ g₂ n) (deferred : List DeferredCall)
    (hempty : deferred ≠ [] → F.eligible = [])
    (hc : ∀ call ∈ deferred, call.operand.checkedCow = true) :
    Agrees Bad (Ends F targets Γ S L signal) (runDeferred g₁ n deferred) (runDeferred g₂ n deferred)
      fun _ => Ends F targets Γ S L signal := by
  by_cases hnil : deferred = []
  · subst hnil
    cases n with
    | zero => exact outOfFuel_spec
    | succ n => exact Agrees.pure _ fun m hm => hm
  have helig := hempty hnil
  -- Which block is arrived at does not depend on the machine.
  refine Agrees.forState fun m₀ hm₀ => ?_
  refine (ih deferred Γ S (tally signal.handles + L) hc).weaken ?_ fun _ m hm => ⟨hm, fun t ht => ?_⟩
  · rintro m rfl
    exact hm₀.counted
  obtain ⟨s, hs, -⟩ := hm₀.arrives t ht
  refine ⟨s, hs, (hm.anti fun x hx => ?_).weaken fun g => Nat.le_add_left _ _⟩
  have := ((F.exclusive_iff s x).1 hx).1
  rw [helig] at this
  simp at this

theorem step_block (ihs : StatementsSpec g₁ g₂ n) (ihd : DeferredSpec g₁ g₂ n) :
    BlockSpec g₁ g₂ (n + 1) := by
  intro F body id b targets Γ S L hF hbody hc hscope
  refine Agrees.bind (Q := fun d m => d = Γ.length ∧ F.Arrive b Γ S L m) ?_ fun d =>
    Agrees.fact fun hd => ?_
  · refine Agrees.self fun m hm => ⟨?_, hm⟩
    obtain ⟨s, -, hat⟩ := hm
    exact (scopeDepth_spec.post m _ m hat rfl).1
  refine Agrees.bind (ihs F body id b targets [] Γ S L hF hbody hc hscope (by simp) (by simp))
    fun r => Agrees.fact fun hr => Agrees.ofExists fun Δ => ?_
  refine Agrees.bind (deferred_ends ihd r.2 hr.1 hr.2) fun _ => ?_
  refine Agrees.bind (leaveScope_ends d hd) fun _ => ?_
  exact Agrees.pure _ fun m hm => hm

theorem armBody_annotate {targets : Targets} {b : Nat} {operations : List Operation}
    (arms : List MatchStatementArm) (variant : String) (id : Nat)
    (h : FollowsBranches F (arms.map MatchStatementArm.body) id b operations targets)
    (hc : armsCheckedCow arms = true) :
    (armBody arms variant = none ∧ armBody (annotateArms F.proven arms id).1 variant = none) ∨
      ∃ body ∈ arms.map MatchStatementArm.body, ∃ id' entry, armBody arms variant = some body ∧
        armBody (annotateArms F.proven arms id).1 variant
          = some (annotateBody F.proven body id').1 ∧
        bodyCheckedCow body = true ∧ F.Passes b operations entry ∧
        FollowsBody F body id' entry targets := by
  induction arms generalizing id with
  | nil => exact Or.inl ⟨rfl, rfl⟩
  | cons arm arms ih =>
    obtain ⟨v, binding, body⟩ := arm
    simp only [armsCheckedCow, Bool.and_eq_true] at hc
    obtain _ | ⟨passes, head, tail⟩ := h
    simp only [annotateArms, armBody]
    by_cases hv : v = variant
    · right
      rw [if_pos hv, if_pos hv]
      exact ⟨body, by simp [MatchStatementArm.body], id, _, rfl, rfl, hc.1, passes, head⟩
    · rw [if_neg hv, if_neg hv, annotateBody_counts F.proven body id]
      rcases ih _ tail hc.2 with h | ⟨body', hm, h⟩
      · exact Or.inl h
      · exact Or.inr ⟨body', List.mem_cons_of_mem _ hm, h⟩

theorem step_arm (ih : BlockSpec g₁ g₂ n) : ArmSpec g₁ g₂ (n + 1) := by
  intro F arms variant id b operations targets Γ S L hF hbranches hc hscope
  rcases armBody_annotate arms variant id hbranches hc with
    ⟨h1, h2⟩ | ⟨body, hm, id', entry, h1, h2, hcb, hp, hb⟩
  · simp only [execArm, h1, h2]
    exact unsupported_spec
  · simp only [execArm, h1, h2]
    exact (ih F body id' entry targets Γ S L hF hb hcb (hscope body hm)).strengthen fun m hm => hm.pass hp

/-! ## Loops -/

section Loops

variable {body : List Statement} {id b : Nat} {operations : List Operation} {targets : Targets}
  {xs Γ : List String} {S : Nat → Prop} {L : Nat → Nat}

theorem round_spec (ih : BlockSpec g₁ g₂ n) (hF : F.Single)
    (hl : LoopFlow F body id b operations targets xs Γ) :
    Agrees Bad (F.Ready b operations Γ S L) (execBlock g₁ n (annotateBody F.proven body id).1)
      (execBlock g₂ n body) (Ends F (loopTargets b targets) Γ S L) := by
  obtain ⟨b₁, hp, hb⟩ := hl.entry
  exact (ih F body id b₁ (loopTargets b targets) Γ S L hF hb hl.checked hl.names).strengthen fun m hm => hm.pass hp

/-- What a loop does with the signal of a round. -/
theorem signal_spec {again₁ again₂ : Exec Signal}
    (hagain : Agrees Bad (F.Arrive b Γ S L) again₁ again₂ (Ends F targets Γ S L)) (signal : Signal) :
    Agrees Bad (Ends F (loopTargets b targets) Γ S L signal)
      (match signal with
      | .next | .continueLoop => again₁
      | .breakLoop => pure .next
      | .returned v => pure (.returned v))
      (match signal with
      | .next | .continueLoop => again₂
      | .breakLoop => pure .next
      | .returned v => pure (.returned v)) (Ends F targets Γ S L) := by
  cases signal with
  | next | continueLoop => exact hagain.strengthen fun m hm => hm.arrives b rfl
  | breakLoop => exact Agrees.pure _ fun m hm => ⟨hm.counted, fun t ht => hm.arrives t ht⟩
  | returned v => exact Agrees.pure _ fun m hm => .returned v hm.counted

theorem step_forever (ih : Executes g₁ g₂ n) (hF : F.Single)
    (hl : LoopFlow F body id b operations targets [] Γ) :
    Agrees Bad (F.Ready b operations Γ S L)
      (loopForever g₁ (n + 1) (annotateBody F.proven body id).1) (loopForever g₂ (n + 1) body)
      (Ends F targets Γ S L) := by
  have hagain := ih.forever F body id b operations targets Γ S L hF hl
  exact Agrees.bind (round_spec ih.block hF hl)
    (signal_spec (hagain.strengthen fun m hm => hm.ready hl.quiet))

theorem condition_spec (hv : Evaluates g₁ g₂ n) (hF : F.Single) (hq : Quiet F.eligible xs operations)
    (condition : ValueExpr) (hc : condition.checkedCow = true)
    (ht : ∀ x ∈ condition.touched, x ∈ xs) :
    Agrees Bad (F.Ready b operations Γ S L) (evalBool g₁ n condition) (evalBool g₂ n condition)
      fun _ => F.Ready b operations Γ S L := by
  refine ready_rule hF hq fun X hout _ _ hback => ?_
  refine (hv.evalBool condition Γ X S L hc fun x hx => hout x (ht x hx)).imp fun _ m hm => ?_
  exact hback [] S L m (by simp) hm

theorem step_whileTrue (hv : Evaluates g₁ g₂ n) (ih : Executes g₁ g₂ n) (hF : F.Single)
    (condition : ValueExpr) (hl : LoopFlow F body id b operations targets condition.touched Γ)
    (hp : F.Passes b operations targets.next) (hc : condition.checkedCow = true) :
    Agrees Bad (F.Ready b operations Γ S L)
      (loopWhile g₁ (n + 1) condition (annotateBody F.proven body id).1)
      (loopWhile g₂ (n + 1) condition body) (Ends F targets Γ S L) := by
  have hagain := ih.whileTrue F condition body id b operations targets Γ S L hF hl hp hc
  refine Agrees.bind (condition_spec hv hF hl.quiet condition hc fun _ h => h) fun c => ?_
  cases c with
  | false => exact Agrees.pure _ fun m hm => .next hm hp
  | true =>
    exact Agrees.bind (round_spec ih.block hF hl)
      (signal_spec (hagain.strengthen fun m hm => hm.ready hl.quiet))

theorem step_cStyle (hv : Evaluates g₁ g₂ n) (ih : Executes g₁ g₂ n) (hF : F.Single)
    (binding : String) (condition update : ValueExpr)
    (hl : LoopFlow F body id b operations targets (condition.touched ++ update.touched) Γ)
    (hp : F.Passes b operations targets.next) (hc : condition.checkedCow = true)
    (hcu : update.checkedCow = true) (hclear : F.Clear b binding) :
    Agrees Bad (F.Ready b operations Γ S L)
      (loopCStyle g₁ (n + 1) binding condition update (annotateBody F.proven body id).1)
      (loopCStyle g₂ (n + 1) binding condition update body) (Ends F targets Γ S L) := by
  have hagain := ih.cStyle F binding condition update body id b operations targets Γ S L hF hl hp hc
    hcu hclear
  -- The update runs at the header, with the states the header starts from.
  have hupdate : Agrees Bad (F.Ready b operations Γ S L)
      (do
        let v ← eval g₁ n update
        assignVariable binding v
        loopCStyle g₁ n binding condition update (annotateBody F.proven body id).1)
      (do
        let v ← eval g₂ n update
        assignVariable binding v
        loopCStyle g₂ n binding condition update body) (Ends F targets Γ S L) := by
    refine ready_rule hF hl.quiet fun X hout _ hfree hback => ?_
    refine Agrees.bind (hv.eval update Γ X S L hcu hout.right) fun v => ?_
    refine Agrees.bind ((assignVariable_spec binding v (hfree binding hclear)).imp
      fun _ _ h => h.1) fun _ => ?_
    exact hagain.strengthen fun m hm => hback [] S L m (by simp) hm
  refine Agrees.bind (condition_spec hv hF hl.quiet condition hc
    fun x hx => List.mem_append_left _ hx) fun c => ?_
  cases c with
  | false => exact Agrees.pure _ fun m hm => .next hm hp
  | true =>
    exact Agrees.bind (round_spec ih.block hF hl)
      (signal_spec (hupdate.strengthen fun m hm => hm.ready hl.quiet))

theorem step_iterate (ih : Executes g₁ g₂ n) (hF : F.Single) (binding : String) (h i : Nat)
    (hl : LoopFlow F body id b operations targets [] (binding :: Γ))
    (hp : F.Passes b operations targets.next) (hheader : (binding, some b) ∈ F.headers)
    (hclear : F.Clear b binding) :
    Agrees Bad (F.Ready b operations Γ S (tally [h] + L))
      (loopIterate g₁ (n + 1) binding h i (annotateBody F.proven body id).1)
      (loopIterate g₂ (n + 1) binding h i body) (Ends F targets Γ S (tally [h] + L)) := by
  have hagain := ih.iterate F binding h (i + 1) body id b operations targets Γ S L hF hl hp hheader
    hclear
  refine ready_rule hF hl.quiet fun X hout _ hfree hback => ?_
  refine Agrees.bind (fetch_spec h i) fun r => ?_
  cases r with
  | none =>
    refine Agrees.pure _ fun m hm => .next (hback [] S _ m (by simp) (hm.weaken fun g => ?_)) hp
    simp only [Pi.add_apply]
    omega
  | some v =>
    refine Agrees.bind (scopeDepth_spec) fun d => Agrees.fact fun hd => ?_
    refine Agrees.bind (Q := fun _ => At (binding :: Γ) X S (tally [h] + L))
      ((declare_spec binding v (hfree binding hclear)).fewer fun g => ?_) fun _ => ?_
    · simp [optionHandles, handlesAll]
    refine Agrees.bind (Q := Ends F (loopTargets b targets) (binding :: Γ) S (tally [h] + L))
      ((round_spec ih.block hF hl).strengthen fun m hm => ?_) fun signal => ?_
    · refine hback [binding] S _ m (fun x hx => Or.inr ?_) hm
      rw [List.mem_singleton.1 hx]
      exact ⟨hheader, hclear⟩
    exact Agrees.bind (leaveScope_ends (Δ := [binding]) d hd) fun _ =>
      signal_spec (hagain.strengthen fun m hm => hm.ready hl.quiet) signal

end Loops

theorem step_loop (hv : Evaluates g₁ g₂ n) (ih : Executes g₁ g₂ n) (kind : LoopKind)
    (body : List Statement) (id b : Nat) (targets : Targets) (Γ : List String) (S : Nat → Prop)
    (L : Nat → Nat) (hF : F.Single) (hfollows : Follows F (.loop kind body) id b targets)
    (hc : (Statement.loop kind body).checkedCow = true)
    (hscope : F.Scoped Γ (statementBindings (.loop kind body))) :
    Agrees Bad (F.Arrive b Γ S L)
      (execLoop g₁ (n + 1) kind (annotateBody F.proven body (id + 1)).1)
      (execLoop g₂ (n + 1) kind body) (Ends F targets Γ S L) := by
  simp only [Statement.checkedCow_loop, Bool.and_eq_true] at hc
  obtain ⟨proves, headers, hnext, breaks, repeats, defers, inner⟩ := hfollows
  have hq : Quiet F.eligible (headTouched (.loop kind body)) _ :=
    statement_quiet (.loop kind body) id rfl
  obtain _ | ⟨passes, head, tail⟩ := inner
  have hflow : ∀ xs Γ', (∀ x ∈ xs, x ∈ headTouched (.loop kind body)) → F.Scoped Γ' (collectBindings body) →
      LoopFlow F body (id + 1) b (statementOperations F.eligible (.loop kind body) id).1 targets
        xs Γ' := fun xs Γ' hxs hΓ' =>
    ⟨hq.mono hxs, ⟨_, passes, head⟩, hc.2, hΓ'⟩
  have hinner : F.Scoped Γ (collectBindings body) := hscope.mono fun x => by
    simp only [statementBindings, List.map_append, List.count_append]
    omega
  cases kind with
  | infinite =>
    exact (ih.forever F body _ b _ targets Γ S L hF (hflow [] Γ (by simp) hinner)).strengthen fun m hm => hm.ready hq
  | whileTrue condition =>
    exact (ih.whileTrue F condition body _ b _ targets Γ S L hF
      (hflow condition.touched Γ (fun x hx => hx) hinner) (hnext rfl) hc.1).strengthen fun m hm => hm.ready hq
  | cStyle binding t initializer condition update =>
    simp only [LoopKind.checkedCow, Bool.and_eq_true] at hc
    have hheader : (binding, some b) ∈ F.headers :=
      headers _ (by simp [statementHeaders, ownBindings])
    refine quiet_rule hF hq fun X hout _ hown hback => ?_
    obtain ⟨hX, hclear⟩ := hown binding hheader
    refine Agrees.bind (hv.eval initializer Γ X S L hc.1.1 hout.left) fun v => ?_
    refine Agrees.bind scopeDepth_spec fun d => Agrees.fact fun hd => ?_
    refine Agrees.bind (declare_spec binding v hX) fun _ => ?_
    refine Agrees.bind ((ih.cStyle F binding condition update body _ b _ targets (binding :: Γ)
      S L hF (hflow (condition.touched ++ update.touched) (binding :: Γ) ?_ ?_) (hnext rfl)
      hc.1.2.1 hc.1.2.2 hclear).strengthen fun m hm => ?_) fun signal => ?_
    · exact fun x hx => List.mem_append_right _ hx
    · exact hscope.mono fun x => by
        simp only [statementBindings, ownBindings, List.map_append, List.map_cons, List.map_nil,
          List.count_append, List.count_cons, List.count_nil]
        omega
    · refine hback [binding] S L m (fun x hx => Or.inr ?_) hm
      rw [List.mem_singleton.1 hx]
      exact hheader
    · exact Agrees.bind (leaveScope_ends (Δ := [binding]) d hd) fun _ => Agrees.pure _ fun m hm => hm
  | iterate binding t iterable =>
    have hheader : (binding, some b) ∈ F.headers :=
      headers _ (by simp [statementHeaders, ownBindings])
    refine quiet_rule hF hq fun X hout _ hown hback => ?_
    obtain ⟨hX, hclear⟩ := hown binding hheader
    refine Agrees.bind (hv.eval iterable Γ X S L hc.1 hout) fun v => ?_
    refine Agrees.bind (asArray_spec v) fun h => Agrees.fact ?_
    rintro rfl
    refine Agrees.bind ((ih.iterate F binding h 0 body _ b _ targets Γ S L hF
      (hflow [] (binding :: Γ) (by simp) ?_) (hnext rfl) hheader hclear).strengthen fun m hm => hback [] S _ m (by simp) hm) fun signal => ?_
    · exact hscope.mono fun x => by
        simp only [statementBindings, ownBindings, List.map_append, List.map_cons, List.map_nil,
          List.count_append, List.count_cons, List.count_nil]
        omega
    · exact Agrees.bind (discard_ends (.array h)) fun _ => Agrees.pure _ fun m hm => hm

end Step

end Nomo.Mir
