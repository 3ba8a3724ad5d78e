import Nomo.Mir.Execute

/-!
# One statement of the simulation

The step of the simulation for each kind of statement.  Most statements are plain: their operations
are quiet, so the arrays that stay unique are among those their expressions leave alone.  Three kinds
can make an array unique, and have lemmas of their own: declarations, assignments, and element
stores.
-/

namespace Nomo.Mir

open Nomo.Ir Nomo.Lib Nomo.Lib.RefCount

variable {opt : Function → Function} {g₁ g₂ : Setting} {n : Nat} {F : Flow} {s : Statement}
  {id b : Nat} {targets : Targets} {Γ : List String} {S : Nat → Prop} {L : Nat → Nat}

/-- After a statement: the names it declared are in scope, and the run arrives where its signal
leads. -/
abbrev Finishes (F : Flow) (s : Statement) (targets : Targets) (Γ : List String) (S : Nat → Prop)
    (L : Nat → Nat) (signal : Signal) (m : Machine) : Prop :=
  ∃ Δ : List String, (∀ x, Δ.count x ≤ ((statementBindings s).map Prod.fst).count x) ∧
    Ends F targets (Δ ++ Γ) S L signal m

theorem Ends.finishes {signal : Signal} {m : Machine} (h : Ends F targets Γ S L signal m) :
    Finishes F s targets Γ S L signal m :=
  ⟨[], by simp, h⟩

theorem Ends.finishesWith {signal : Signal} {m : Machine} {name : String}
    (h : Ends F targets (name :: Γ) S L signal m)
    (hname : name ∈ (ownBindings s).map Prod.fst) : Finishes F s targets Γ S L signal m := by
  refine ⟨[name], fun x => ?_, h⟩
  rw [statementBindings_eq, List.map_append, List.count_append, List.count_singleton]
  split
  · rename_i hx
    have := List.count_pos_iff.2 hname
    rw [beq_iff_eq.1 hx] at this
    omega
  · exact Nat.zero_le _

/-- The step for one statement: annotated and as it was, it does the same from where it is reached. -/
abbrev StepSpec (g₁ g₂ : Setting) (n : Nat) (F : Flow) (s : Statement) (id b : Nat) (targets : Targets)
    (Γ : List String) (S : Nat → Prop) (L : Nat → Nat) : Prop :=
  F.Single → Follows F s id b targets → s.checkedCow = true → F.Scoped Γ (statementBindings s) →
    Agrees Bad (F.Arrive b Γ S L) (exec g₁ (n + 1) (annotateStatement F.proven s id))
      (exec g₂ (n + 1) s) (Finishes F s targets Γ S L)

/-! ## Rules -/

theorem plain_rule {α : Type} {a₁ a₂ : Exec α} {post : α → Machine → Prop} (s : Statement)
    (id : Nat) (hF : F.Single) (hs : isPlain s = true)
    (h : ∀ X, Outside X (headTouched s) →
      (∀ Δ S L m, (∀ x ∈ Δ, (x, none) ∈ F.headers) → At (Δ ++ Γ) X S L m →
        F.Ready b (statementOperations F.eligible s id).1 (Δ ++ Γ) S L m) →
      Agrees Bad (At Γ X S L) a₁ a₂ post) :
    Agrees Bad (F.Arrive b Γ S L) a₁ a₂ post :=
  quiet_rule hF (statement_quiet s id hs) fun X hout _ _ hback =>
    h X hout fun Δ S L m hΔ hm => hback Δ S L m (fun x hx => Or.inl (hΔ x hx)) hm

theorem simple_rule {a₁ a₂ : Exec Signal} (s : Statement) (id : Nat) (hF : F.Single)
    (hs : isPlain s = true)
    (hnext : F.Passes b (statementOperations F.eligible s id).1 targets.next)
    (h : ∀ X, Outside X (headTouched s) →
      Agrees Bad (At Γ X S L) a₁ a₂ fun signal m => signal = .next ∧ At Γ X S L m) :
    Agrees Bad (F.Arrive b Γ S L) a₁ a₂ (Finishes F s targets Γ S L) := by
  refine plain_rule s id hF hs fun X hout hback => (h X hout).imp ?_
  rintro signal m ⟨rfl, hm⟩
  exact (Ends.next (hback [] S L m (by simp) hm) hnext).finishes

theorem branch_spec {operations : List Operation} {body : List Statement} {entry : Nat}
    (ih : BlockSpec g₁ g₂ n) (hF : F.Single) (hp : F.Passes b operations entry)
    (hb : FollowsBody F body id entry targets) (hc : bodyCheckedCow body = true)
    (hscope : F.Scoped Γ (collectBindings body)) :
    Agrees Bad (F.Ready b operations Γ S L) (execBlock g₁ n (annotateBody F.proven body id).1)
      (execBlock g₂ n body) (Ends F targets Γ S L) :=
  (ih F body id entry targets Γ S L hF hb hc hscope).strengthen fun _ hm => hm.pass hp

theorem count_flatMap_le (bodies : List (List Statement)) (body : List Statement)
    (hm : body ∈ bodies) (x : String) :
    ((collectBindings body).map Prod.fst).count x
      ≤ ((bodies.flatMap collectBindings).map Prod.fst).count x := by
  induction bodies with
  | nil => simp at hm
  | cons c bodies ih =>
    rw [List.flatMap_cons, List.map_append, List.count_append]
    rcases List.mem_cons.1 hm with rfl | hm
    · exact Nat.le_add_right _ _
    · have := ih hm
      omega

theorem Flow.Scoped.branch (h : F.Scoped Γ (statementBindings s)) (body : List Statement)
    (hm : body ∈ branches s) : F.Scoped Γ (collectBindings body) := by
  refine h.mono fun x => ?_
  have := count_flatMap_le _ body hm x
  rw [statementBindings_eq, List.map_append, List.count_append]
  omega

theorem Flow.Scoped.branchWith (h : F.Scoped Γ (statementBindings s)) (body : List Statement)
    (hm : body ∈ branches s) (name : String) (hname : name ∈ (ownBindings s).map Prod.fst) :
    F.Scoped (name :: Γ) (collectBindings body) := by
  refine h.mono fun x => ?_
  have h1 := count_flatMap_le _ body hm x
  have h2 : (if name == x then 1 else 0) ≤ ((ownBindings s).map Prod.fst).count x := by
    split
    · rename_i hx
      rw [← beq_iff_eq.1 hx]
      exact List.count_pos_iff.2 hname
    · exact Nat.zero_le _
  rw [statementBindings_eq, List.map_append, List.count_append, List.count_cons]
  omega

theorem declared_spec {X : String → Bool} {operations : List Operation} (name : String) (v : Value)
    (hX : X name = false) (hheader : (name, none) ∈ F.headers)
    (hback : ∀ Δ S L m, (∀ x ∈ Δ, (x, none) ∈ F.headers) → At (Δ ++ Γ) X S L m →
      F.Ready b operations (Δ ++ Γ) S L m) :
    Agrees Bad (At Γ X S (tally v.handles + L)) (declare name v) (declare name v)
      fun _ => F.Ready b operations (name :: Γ) S L :=
  (declare_spec name v hX).imp fun _ m hm => hback [name] S L m (by simpa using hheader) hm

/-! ## Plain statements -/

theorem annotateStatement_plain (proven : List Nat) (s : Statement) (id : Nat)
    (hs : isPlain s = true) :
    annotateStatement proven s id = (annotateChildren proven s (id + 1)).1 := by
  cases s with
  | letBind | assign | arrayIndexAssign => simp [isPlain] at hs
  | ifLet binding t value variant body elseBody => cases elseBody <;> rfl
  | _ => rfl

theorem plain_step (hs : isPlain s = true)
    (h : F.Single → Follows F s id b targets → s.checkedCow = true →
      F.Scoped Γ (statementBindings s) → ∀ X, Outside X (headTouched s) →
      (∀ Δ S L m, (∀ x ∈ Δ, (x, none) ∈ F.headers) → At (Δ ++ Γ) X S L m →
        F.Ready b (statementOperations F.eligible s id).1 (Δ ++ Γ) S L m) →
      Agrees Bad (At Γ X S L) (exec g₁ (n + 1) (annotateChildren F.proven s (id + 1)).1)
        (exec g₂ (n + 1) s) (Finishes F s targets Γ S L)) :
    StepSpec g₁ g₂ n F s id b targets Γ S L := by
  intro hF hf hc hscope
  rw [annotateStatement_plain F.proven s id hs]
  exact plain_rule s id hF hs (h hF hf hc hscope)

variable {name enumName variant : String} {t : ValueType} {value : ValueExpr}
  {body elseBody : List Statement} {arms : List MatchStatementArm} {carrier : QuestionCarrier}
  {actions : List ValueExpr}

theorem letIf_spec (hv : Evaluates g₁ g₂ n) (ih : Executes g₁ g₂ n) :
    StepSpec g₁ g₂ n F (.letIf name t value body elseBody) id b targets Γ S L := by
  refine plain_step rfl fun hF hf hc hscope X hout hback => ?_
  simp only [Statement.checkedCow, Bool.and_eq_true] at hc
  obtain ⟨-, headers, -, -, -, -, inner⟩ := hf
  obtain _ | ⟨passes₁, head₁, tail⟩ := inner
  obtain _ | ⟨passes₂, head₂, tail⟩ := tail
  simp only [annotateChildren, annotateBody_counts F.proven body (id + 1)]
  have hname : name ∈ (ownBindings (.letIf name t value body elseBody)).map Prod.fst := by
    simp [ownBindings]
  refine Agrees.bind (hv.evalBool value Γ X S L hc.1 hout.tail) fun c => ?_
  refine Agrees.bind ((declared_spec (L := L) name .unit (hout name (by simp [headTouched]))
    (headers _ (by simp [statementHeaders, ownBindings])) hback).fewer fun g => by simp) fun _ => ?_
  cases c with
  | true =>
    exact (branch_spec ih.block hF passes₁ head₁ hc.2.1
      (hscope.branchWith body (by simp [branches]) name hname)).imp
        fun _ _ hm => hm.finishesWith hname
  | false =>
    exact (branch_spec ih.block hF passes₂ head₂ hc.2.2
      (hscope.branchWith elseBody (by simp [branches]) name hname)).imp
        fun _ _ hm => hm.finishesWith hname

theorem ifThenElse_spec (hv : Evaluates g₁ g₂ n) (ih : Executes g₁ g₂ n) :
    StepSpec g₁ g₂ n F (.ifThenElse value body elseBody) id b targets Γ S L := by
  refine plain_step rfl fun hF hf hc hscope X hout hback => ?_
  simp only [Statement.checkedCow, Bool.and_eq_true] at hc
  obtain ⟨-, -, -, -, -, -, inner⟩ := hf
  obtain _ | ⟨passes₁, head₁, tail⟩ := inner
  obtain _ | ⟨passes₂, head₂, tail⟩ := tail
  simp only [annotateChildren, annotateBody_counts F.proven body (id + 1)]
  refine Agrees.bind ((hv.evalBool value Γ X S L hc.1 hout).imp
    fun _ m hm => hback [] S L m (by simp) hm) fun c => ?_
  cases c with
  | true =>
    exact (branch_spec ih.block hF passes₁ head₁ hc.2.1
      (hscope.branch body (by simp [branches]))).imp fun _ _ hm => hm.finishes
  | false =>
    exact (branch_spec ih.block hF passes₂ head₂ hc.2.2
      (hscope.branch elseBody (by simp [branches]))).imp fun _ _ hm => hm.finishes

theorem letMatch_spec (hv : Evaluates g₁ g₂ n) (ih : Executes g₁ g₂ n) :
    StepSpec g₁ g₂ n F (.letMatch name t value enumName arms) id b targets Γ S L := by
  refine plain_step rfl fun hF hf hc hscope X hout hback => ?_
  simp only [Statement.checkedCow, Bool.and_eq_true] at hc
  obtain ⟨-, headers, -, -, -, -, inner⟩ := hf
  have hname : name ∈ (ownBindings (.letMatch name t value enumName arms)).map Prod.fst := by
    simp [ownBindings]
  refine Agrees.bind (hv.eval value Γ X S L hc.1 hout.tail) fun v => ?_
  refine Agrees.bind (splitVariant_spec v) fun r => ?_
  refine Agrees.bind ((discard_spec v).strengthen fun m hm => hm.2) fun _ => ?_
  refine Agrees.bind ((declared_spec (L := L) name .unit (hout name (by simp [headTouched]))
    (headers _ (by simp [statementHeaders, ownBindings])) hback).fewer fun g => by simp) fun _ => ?_
  exact (ih.arm F arms r.1 (id + 1) b _ targets (name :: Γ) S L hF inner hc.2
    fun body hm => hscope.branchWith body hm name hname).imp fun _ _ hm => hm.finishesWith hname

theorem matchOn_spec (hv : Evaluates g₁ g₂ n) (ih : Executes g₁ g₂ n) :
    StepSpec g₁ g₂ n F (.matchOn value enumName arms) id b targets Γ S L := by
  refine plain_step rfl fun hF hf hc hscope X hout hback => ?_
  simp only [Statement.checkedCow, Bool.and_eq_true] at hc
  obtain ⟨-, -, -, -, -, -, inner⟩ := hf
  refine Agrees.bind (hv.eval value Γ X S L hc.1 hout) fun v => ?_
  refine Agrees.bind (splitVariant_spec v) fun r => ?_
  refine Agrees.bind ((discard_spec v).weaken (fun m hm => hm.2) fun _ m hm =>
    hback [] S L m (by simp) hm) fun _ => ?_
  exact (ih.arm F arms r.1 (id + 1) b _ targets Γ S L hF inner hc.2
    fun body hm => hscope.branch body hm).imp fun _ _ hm => hm.finishes

theorem early_spec (hv : Evaluates g₁ g₂ n) (v : Value) (actions : List ValueExpr)
    (hc : checkedCowAll actions = true) (X : String → Bool) :
    Agrees Bad (At Γ X S (tally v.handles + L))
      (do
        let vs ← evalAll g₁ n actions
        discardAll vs
        pure (Signal.returned v))
      (do
        let vs ← evalAll g₂ n actions
        discardAll vs
        pure (Signal.returned v)) (Finishes F s targets Γ S L) := by
  refine Agrees.bind ((hv.evalAll actions Γ (fun _ => false) S (tally v.handles + L) hc
    fun _ _ => rfl).strengthen fun m hm => hm.anti fun _ hx => (Bool.false_ne_true hx).elim) fun vs => ?_
  refine Agrees.bind (discardAll_spec vs) fun _ => Agrees.pure _ fun m hm => ?_
  exact (Ends.returned v hm).finishes

theorem questionLet_spec (hv : Evaluates g₁ g₂ n) :
    StepSpec g₁ g₂ n F (.questionLet carrier name t value actions) id b targets Γ S L := by
  refine plain_step rfl fun hF hf hc _ X hout hback => ?_
  simp only [Statement.checkedCow, Bool.and_eq_true] at hc
  obtain ⟨-, headers, next, -, -, -, -⟩ := hf
  refine Agrees.bind (hv.eval value Γ X S L hc.1 hout.tail) fun v => ?_
  refine Agrees.bind (splitVariant_spec v) fun r => Agrees.fact fun hr => ?_
  obtain ⟨variant, payload⟩ := r
  dsimp only
  split
  · exact early_spec hv v actions hc.2 X
  split
  · rename_i p
    refine Agrees.bind ((declared_spec (L := L) name p (hout name (by simp [headTouched]))
      (headers _ (by simp [statementHeaders, ownBindings])) hback).fewer fun g => ?_) fun _ => ?_
    · rw [hr]
      simp [Value.handles, handlesAll]
    · exact Agrees.pure _ fun m hm =>
        (Ends.next hm (next rfl)).finishesWith (by simp [ownBindings])
  · exact unsupported_spec

theorem questionReturn_spec (hv : Evaluates g₁ g₂ n) :
    StepSpec g₁ g₂ n F (.questionReturn carrier t value actions) id b targets Γ S L := by
  refine plain_step rfl fun hF _ hc _ X hout _ => ?_
  simp only [Statement.checkedCow, Bool.and_eq_true] at hc
  refine Agrees.bind (hv.eval value Γ X S L hc.1 hout) fun v => ?_
  refine Agrees.bind (splitVariant_spec v) fun r => Agrees.fact fun _ => ?_
  obtain ⟨variant, payload⟩ := r
  dsimp only
  split
  · exact early_spec hv v actions hc.2 X
  · exact Agrees.pure _ fun m hm => (Ends.returned v hm).finishes

theorem letElse_spec (hv : Evaluates g₁ g₂ n) (ih : Executes g₁ g₂ n) :
    StepSpec g₁ g₂ n F (.letElse name t value variant elseBody) id b targets Γ S L := by
  refine plain_step rfl fun hF hf hc hscope X hout hback => ?_
  simp only [Statement.checkedCow, Bool.and_eq_true] at hc
  obtain ⟨-, headers, next, -, -, -, inner⟩ := hf
  obtain _ | ⟨passes, head, tail⟩ := inner
  refine Agrees.bind (hv.eval value Γ X S L hc.1 hout.tail) fun v => ?_
  refine Agrees.bind (splitVariant_spec v) fun r => Agrees.fact fun hr => ?_
  obtain ⟨actual, payload⟩ := r
  dsimp only
  split
  · split
    · rename_i p
      refine Agrees.bind ((declared_spec (L := L) name p (hout name (by simp [headTouched]))
        (headers _ (by simp [statementHeaders, ownBindings])) hback).fewer fun g => ?_) fun _ => ?_
      · rw [hr]
        simp [Value.handles, handlesAll]
      · exact Agrees.pure _ fun m hm =>
          (Ends.next hm (next rfl)).finishesWith (by simp [ownBindings])
    · exact unsupported_spec
  · refine Agrees.bind ((discard_spec v).imp fun _ m hm => hback [] S L m (by simp) hm)
      fun _ => ?_
    exact (branch_spec ih.block hF passes head hc.2
      (hscope.branch elseBody (by simp [branches]))).imp fun _ _ hm => hm.finishes

theorem bound_spec {X : String → Bool} {operations : List Operation} {body : List Statement}
    {entry : Nat} (ih : BlockSpec g₁ g₂ n) (hF : F.Single) (name : String) (p : Value)
    (hX : X name = false) (hheader : (name, none) ∈ F.headers)
    (hback : ∀ Δ S L m, (∀ x ∈ Δ, (x, none) ∈ F.headers) → At (Δ ++ Γ) X S L m →
      F.Ready b operations (Δ ++ Γ) S L m)
    (hp : F.Passes b operations entry) (hb : FollowsBody F body id entry targets)
    (hc : bodyCheckedCow body = true) (hscope : F.Scoped (name :: Γ) (collectBindings body)) :
    Agrees Bad (At Γ X S (tally p.handles + L))
      (do
        let depth ← scopeDepth
        declare name p
        let signal ← execBlock g₁ n (annotateBody F.proven body id).1
        leaveScope depth
        pure signal)
      (do
        let depth ← scopeDepth
        declare name p
        let signal ← execBlock g₂ n body
        leaveScope depth
        pure signal) (Ends F targets Γ S L) := by
  refine Agrees.bind scopeDepth_spec fun d => Agrees.fact fun hd => ?_
  refine Agrees.bind (declared_spec name p hX hheader hback) fun _ => ?_
  refine Agrees.bind (branch_spec ih hF hp hb hc hscope) fun signal => ?_
  exact Agrees.bind (leaveScope_ends (Δ := [name]) d hd) fun _ => Agrees.pure _ fun m hm => hm

theorem ifLet_spec {binding : Option String} {t : Option ValueType}
    {elseBody : Option (List Statement)} (hv : Evaluates g₁ g₂ n) (ih : Executes g₁ g₂ n) :
    StepSpec g₁ g₂ n F (.ifLet binding t value variant body elseBody) id b targets Γ S L := by
  intro hF hf hc hscope
  obtain ⟨-, headers, next, -, -, -, inner⟩ := hf
  obtain ⟨hcv, hcb⟩ : value.checkedCow = true ∧ bodyCheckedCow body = true := by
    cases elseBody <;> simp only [Statement.checkedCow, Bool.and_eq_true] at hc
    · exact hc
    · exact ⟨hc.1, hc.2.1⟩
  -- The first branch is the body in both forms of the statement.
  have hfirst : ∃ entry, F.Passes b (statementOperations F.eligible
      (.ifLet binding t value variant body elseBody) id).1 entry ∧
      FollowsBody F body (id + 1) entry targets ∧
      body ∈ branches (.ifLet binding t value variant body elseBody) := by
    cases elseBody with
    | none | some elseBody =>
      obtain _ | ⟨passes, head, tail⟩ := inner
      exact ⟨_, passes, head, by simp [branches]⟩
  obtain ⟨entry, hp, hb, hmem⟩ := hfirst
  have hann : annotateStatement F.proven (.ifLet binding t value variant body elseBody) id
      = .ifLet binding t value variant (annotateBody F.proven body (id + 1)).1 (elseBody.map
          fun elseBody => (annotateBody F.proven elseBody (id + 1 + bodyCount body)).1) := by
    rw [annotateStatement_plain F.proven _ id rfl]
    cases elseBody with
    | none => rfl
    | some elseBody =>
      simp only [annotateChildren, annotateBody_counts F.proven body (id + 1), Option.map_some]
  rw [hann]
  refine plain_rule (.ifLet binding t value variant body elseBody) id hF rfl
    fun X hout hback => ?_
  have hvalue : Outside X value.touched := by
    cases binding with
    | none => exact hout
    | some name => exact hout.tail
  have hunbound (v : Value) : Agrees Bad (At Γ X S (tally v.handles + L))
      (do
        discard v
        execBlock g₁ n (annotateBody F.proven body (id + 1)).1)
      (do
        discard v
        execBlock g₂ n body)
      (Finishes F (.ifLet binding t value variant body elseBody) targets Γ S L) := by
    refine Agrees.bind ((discard_spec v).imp fun _ m hm => hback [] S L m (by simp) hm)
      fun _ => ?_
    exact (branch_spec ih.block hF hp hb hcb (hscope.branch body hmem)).imp
      fun _ _ hm => hm.finishes
  refine Agrees.bind (hv.eval value Γ X S L hcv hvalue) fun v => ?_
  refine Agrees.bind (splitVariant_spec v) fun r => Agrees.fact fun hr => ?_
  obtain ⟨actual, payload⟩ := r
  dsimp only
  split
  · -- The value has the variant.
    cases binding with
    | none => exact hunbound v
    | some name =>
      have hname : name ∈ (ownBindings (.ifLet (some name) t value variant body
          elseBody)).map Prod.fst := by
        simp [ownBindings]
      obtain _ | ⟨p, _ | ⟨_, _⟩⟩ := payload
      · exact hunbound v
      · refine (bound_spec ih.block hF name p (hout name (by simp [headTouched]))
          (headers _ (by simp [statementHeaders, ownBindings])) hback hp hb hcb
          (hscope.branchWith body hmem name hname)).weaken (fun m hm => hm.weaken fun g => ?_)
            fun _ _ hm => hm.finishes
        rw [hr]
        simp [Value.handles, handlesAll]
      · exact hunbound v
  · refine Agrees.bind ((discard_spec v).imp fun _ m hm => hback [] S L m (by simp) hm)
      fun _ => ?_
    cases elseBody with
    | none => exact Agrees.pure _ fun m hm => (Ends.next hm (next rfl)).finishes
    | some elseBody =>
      simp only [Statement.checkedCow, Bool.and_eq_true] at hc
      obtain _ | ⟨passes, head, tail⟩ := inner
      obtain _ | ⟨passes₂, head₂, tail₂⟩ := tail
      exact (branch_spec ih.block hF passes₂ head₂ hc.2.2
        (hscope.branch elseBody (by simp [branches]))).imp fun _ _ hm => hm.finishes

/-! ## Statements that make an array unique -/

theorem unique_store (before : List Operation) (name : String) (id : Nat) (flatArray : Bool)
    (state : StateMap) (x : String) :
    Unique (transferOperations (before ++ storeOperations name id flatArray) state) x ↔
      x = name ∨ Unique (transferOperations before state) x := by
  rw [transferOperations_append]
  exact StateMap.unique_insert (transferOperations before state) name x

theorem unique_fresh (before : List Operation) (name : String) (state : StateMap) (x : String) :
    Unique (transferOperations (before ++ [.freshArray name]) state) x ↔
      x = name ∨ Unique (transferOperations before state) x := by
  rw [transferOperations_append]
  exact StateMap.unique_insert (transferOperations before state) name x

/-- From the arrival at a statement that makes `name` unique after quiet operations `before`. -/
theorem making_rule {α : Type} {a₁ a₂ : Exec α} {post : α → Machine → Prop} {xs : List String}
    {before operations : List Operation} (name : String) (hq : Quiet F.eligible xs before)
    (hmake : ∀ state x, Unique (transferOperations operations state) x ↔
      x = name ∨ Unique (transferOperations before state) x)
    (hF : F.Single)
    (h : ∀ X, Outside X xs →
      (∀ state, F.input b = some state → name ∈ F.eligible →
        Unique (transferOperations before state) name → X name = true) →
      (∀ Δ S L m, name ∈ Δ ++ Γ → (∀ x ∈ Δ, (x, none) ∈ F.headers) →
        At (Δ ++ Γ) (withName X name) S L m → F.Ready b operations (Δ ++ Γ) S L m) →
      Agrees Bad (At Γ X S L) a₁ a₂ post) :
    Agrees Bad (F.Arrive b Γ S L) a₁ a₂ post := by
  refine arrive_rule fun state hs hloop => ?_
  have hweak (x) (hx : Unique (transferOperations before state) x) : Unique state x := (hq.unique hx).1
  refine (h (F.exclusive (transferOperations before state)) ?_ ?_ ?_).strengthen fun m hm => hm.anti fun x hx => ?_
  · intro x hx
    exact F.exclusive_eq_false _ x fun he hu => (hq.unique hu).2 he hx
  · intro state' hs' he hu
    rw [hs] at hs'
    cases hs'
    exact (F.exclusive_iff _ name).2 ⟨he, hu⟩
  · intro Δ S L m hname hΔ hat
    refine ⟨state, ⟨hs, fun x hx header hh => ?_⟩, hat.anti fun x hx => ?_⟩
    · rcases hloop x hx header hh with h1 | ⟨h1, h2⟩
      · exact Or.inl h1
      have hΓ : x ∉ Δ ++ Γ := by
        intro hm
        rcases List.mem_append.1 hm with hm | hm
        · have := hF x hx _ _ hh (hΔ x hm)
          cases this
        · exact h2 hm
      refine Or.inr ⟨fun hu => ?_, hΓ⟩
      rcases (hmake state x).1 hu with rfl | hu
      · exact hΓ hname
      · exact h1 (hweak x hu)
    · obtain ⟨he, hu⟩ := (F.exclusive_iff _ x).1 hx
      rcases (hmake state x).1 hu with rfl | hu
      · simp [withName]
      · simp [withName, (F.exclusive_iff _ x).2 ⟨he, hu⟩]
  · obtain ⟨h1, h2⟩ := (F.exclusive_iff _ x).1 hx
    exact (F.exclusive_iff _ x).2 ⟨h1, hweak x h2⟩

theorem bindSole_spec {xs : List String} {before operations : List Operation} {name : String}
    {t : ValueType} {value : ValueExpr} (hq : Quiet F.eligible xs before)
    (hmake : ∀ state x, Unique (transferOperations operations state) x ↔
      x = name ∨ Unique (transferOperations before state) x)
    (heq : (statementOperations F.eligible (.letBind name t value) id).1 = operations)
    (hn : name ∈ F.eligible) (hF : F.Single)
    (hf : Follows F (.letBind name t value) id b targets)
    (hscope : F.Scoped Γ (statementBindings (.letBind name t value)))
    (heval : ∀ X, Outside X xs → X name = false →
      Agrees Bad (At Γ X S L) (eval g₁ n value) (eval g₂ n value)
        fun v m => At Γ X S (tally v.handles + L) m ∧ Sole v m) :
    Agrees Bad (F.Arrive b Γ S L) (exec g₁ (n + 1) (.letBind name t value))
      (exec g₂ (n + 1) (.letBind name t value))
      (Finishes F (.letBind name t value) targets Γ S L) := by
  subst heq
  obtain ⟨-, headers, next, -, -, -, -⟩ := hf
  have hheader : (name, none) ∈ F.headers :=
    headers _ (by simp [statementHeaders, ownBindings])
  refine making_rule name hq hmake hF fun X hout _ hback => ?_
  have hwithout : Agrees Bad (At Γ (without X name) S L)
      (do
        let v ← eval g₁ n value
        declare name v
        pure Signal.next)
      (do
        let v ← eval g₂ n value
        declare name v
        pure Signal.next) (Finishes F (.letBind name t value) targets Γ S L) := by
    refine Agrees.bind (heval (without X name) (fun x hx => ?_) (without_self X name)) fun v => ?_
    · simp [without, hout x hx]
    refine Agrees.bind (declare_sole_spec name v (without_self X name) ?_) fun _ => ?_
    · have := hscope name hn
      simp only [statementBindings, ownBindings, List.map_cons, List.map_nil,
        List.count_cons_self, List.count_nil] at this
      rw [List.count_cons_self]
      omega
    · refine Agrees.pure _ fun m hm => (Ends.next (hback [name] S L m (by simp) ?_ (hm.anti
        fun x hx => ?_)) (next rfl)).finishesWith (by simp [ownBindings])
      · simpa using hheader
      · by_cases hxn : x = name
        · simp [withName, without, hxn]
        · simpa [withName, without, hxn] using hx
  exact hwithout.strengthen fun m hm => hm.anti (without_le X name)

theorem letBind_spec (hg : Related opt g₁ g₂) (hv : ∀ k ≤ n, Evaluates g₁ g₂ k) (name : String)
    (t : ValueType) (value : ValueExpr) :
    StepSpec g₁ g₂ n F (.letBind name t value) id b targets Γ S L := by
  intro hF hf hc hscope
  rw [show annotateStatement F.proven (.letBind name t value) id = .letBind name t value from rfl]
  have hhead := hf
  obtain ⟨-, headers, next, -, -, -, -⟩ := hhead
  rcases assign_cases F.eligible name value false id with
    hq | ⟨hn, hfresh, before, heq, hq⟩ | ⟨hn, index, element, et, mode, rfl, before, heq, hq⟩
  · refine quiet_rule hF hq fun X hout _ _ hback => ?_
    refine Agrees.bind ((hv n (Nat.le_refl n)).eval value Γ X S L hc hout.tail) fun v => ?_
    refine Agrees.bind (declare_spec name v (hout name (by simp))) fun _ => Agrees.pure _
      fun m hm => (Ends.next (hback [name] S L m (fun x hx => Or.inl ?_) hm)
        (next rfl)).finishesWith (by simp [ownBindings])
    rw [List.mem_singleton.1 hx]
    exact headers _ (by simp [statementHeaders, ownBindings])
  · refine bindSole_spec hq (fun state x => unique_fresh before name state x) heq hn hF hf hscope
      fun X hout _ => ?_
    exact eval_fresh (fun k hk => hv k (Nat.le_of_lt hk)) value hfresh Γ X S L hc hout
  · refine bindSole_spec hq (fun state x => unique_store before name id true state x) heq hn hF hf
      hscope fun X hout hX => ?_
    have hmode : mode = .checkedCow := by
      simp only [Statement.checkedCow, ValueExpr.checkedCow, Bool.and_eq_true, beq_iff_eq] at hc
      exact hc.1
    subst hmode
    exact eval_arraySet hg (fun k hk => hv k (Nat.le_of_lt hk)) name index element et Γ X S L hc hX
      hout

theorem not_proven {xs : List String} (hf : Follows F s id b targets)
    (hq : Quiet F.eligible xs (statementOperations F.eligible s id).1) : id ∉ F.proven := by
  intro hid
  obtain ⟨proves, -, -, -, -, -, -⟩ := hf
  obtain ⟨state, -, hel⟩ := proves hid
  rw [elided_weak _ state hq.weak] at hel
  simp at hel

theorem proven_store {xs : List String} {before : List Operation} {name : String} {flatArray : Bool}
    (hf : Follows F s id b targets) (hq : Quiet F.eligible xs before)
    (heq : (statementOperations F.eligible s id).1 = before ++ storeOperations name id flatArray)
    (hid : id ∈ F.proven) :
    flatArray = true ∧ ∃ state, F.input b = some state ∧
      Unique (transferOperations before state) name := by
  obtain ⟨proves, -, -, -, -, -, -⟩ := hf
  obtain ⟨state, hs, hel⟩ := proves hid
  rw [heq] at hel
  obtain h | ⟨-, hflat, hunique⟩ := elided_store before name id flatArray state hq.weak
  · rw [h] at hel
    cases hel
  · exact ⟨hflat, state, hs, hunique⟩

theorem markedUpdate_spec {X : String → Bool} {K : Nat → Nat} {f₁ f₂ : Nat → Exec Nat}
    (mode : ArrayMutationMode) (name : String) (hcount : Γ.count name ≤ 1)
    (hmode : mode = .checkedUnique → X name = true)
    (hf : ∀ h, Agrees Bad (fun m => (mode = .checkedUnique → m.heap.refs h = 1) ∧
        At Γ (without X name) S (tally [h] + (K + L)) m) (f₁ h) (f₂ h)
      (Exclusive Γ (without X name) S L)) :
    Agrees Bad (At Γ X S (K + L))
      (updateArray name fun h => do let h ← f₁ h; pure (h, ()))
      (updateArray name fun h => do let h ← f₂ h; pure (h, ()))
      fun _ m => At Γ (withName X name) S L m ∧ name ∈ Γ := by
  refine updateArray_sole_spec (α := Unit) (B := fun _ => L) name hcount fun h => ?_
  refine Agrees.bind ((hf h).strengthen fun m hm => ⟨fun hu => hm.1 (hmode hu), hm.2⟩)
    fun h' => Agrees.pure _ fun m hm => hm

theorem Flow.Scoped.count_le {bindings : List BindingRecord} (h : F.Scoped Γ bindings)
    (x : String) (hx : x ∈ F.eligible) : Γ.count x ≤ 1 := by
  have := h x hx
  omega

theorem annotateStatement_assign (proven : List Nat) (name : String) (value : ValueExpr) (id : Nat)
    (hid : id ∉ proven ∨ ∀ x index element t mode, value ≠ .arraySet x index element t mode) :
    annotateStatement proven (.assign name value) id = .assign name value := by
  cases value with
  | arraySet x index element t mode =>
    rcases hid with hid | hid
    · simp [annotateStatement, annotateChildren, annotateMode, hid]
    · exact absurd rfl (hid x index element t mode)
  | _ => rfl

theorem assignStore_spec (hg : Related opt g₁ g₂) (hv : ∀ k ≤ n, Evaluates g₁ g₂ k) (name : String)
    (index element : ValueExpr) (t : ValueType) {before : List Operation} (hn : name ∈ F.eligible)
    (hF : F.Single) (hf : Follows F (.assign name (.arraySet name index element t .checkedCow)) id b
      targets)
    (hci : index.checkedCow = true) (hce : element.checkedCow = true)
    (hcount : Γ.count name ≤ 1)
    (hq : Quiet F.eligible (index.touched ++ element.touched) before)
    (heq : (statementOperations F.eligible
      (.assign name (.arraySet name index element t .checkedCow)) id).1
        = before ++ storeOperations name id true) :
    Agrees Bad (F.Arrive b Γ S L)
      (exec g₁ (n + 1) (annotateStatement F.proven
        (.assign name (.arraySet name index element t .checkedCow)) id))
      (exec g₂ (n + 1) (.assign name (.arraySet name index element t .checkedCow)))
      (Finishes F (.assign name (.arraySet name index element t .checkedCow)) targets Γ S L) := by
  have hhead := hf
  obtain ⟨-, -, next, -, -, -, -⟩ := hhead
  obtain ⟨mode, hmode⟩ : ∃ mode, mode
      = if id ∈ F.proven then ArrayMutationMode.checkedUnique else .checkedCow := ⟨_, rfl⟩
  have hann : annotateStatement F.proven
      (.assign name (.arraySet name index element t .checkedCow)) id
      = .assign name (.arraySet name index element t mode) := by
    rw [hmode]
    simp [annotateStatement, annotateChildren, annotateMode]
  have hmarked : mode = .checkedUnique → id ∈ F.proven := by
    intro h
    by_contra hid
    rw [hmode, if_neg hid] at h
    cases h
  rw [hann]
  refine making_rule name hq (heq ▸ unique_store before name id true) hF
    fun X hout hunique hback => ?_
  refine Agrees.bind (Q := fun _ m => At Γ (withName X name) S L m ∧ name ∈ Γ) ?_ fun _ =>
    Agrees.pure _ fun m hm => (Ends.next (hback [] S L m (by simpa using hm.2) (by simp) hm.1)
      (next rfl)).finishes
  cases n with
  | zero => exact outOfFuel_spec
  | succ k =>
    have hv := hv k (Nat.le_succ k)
    simp only [execAssign, inPlace, decide_true, if_true]
    refine Agrees.bind (hv.evalIndex index Γ X S L hci hout.left) fun i => ?_
    refine Agrees.bind (hv.eval element Γ X S L hce hout.right) fun v => ?_
    refine markedUpdate_spec mode name hcount (fun hu => ?_) fun h => ?_
    · obtain ⟨-, state, hs, hu⟩ := proven_store hf hq heq (hmarked hu)
      exact hunique state hs hn hu
    · rw [hg.unmonitored]
      exact setElement_marked_spec g₁.monitor mode h i v

theorem assign_spec (hg : Related opt g₁ g₂) (hv : ∀ k ≤ n, Evaluates g₁ g₂ k)
    (ih : Executes g₁ g₂ n) (name : String) (value : ValueExpr) :
    StepSpec g₁ g₂ n F (.assign name value) id b targets Γ S L := by
  intro hF hf hc hscope
  have hhead := hf
  obtain ⟨-, -, next, -, -, -, -⟩ := hhead
  rcases assign_cases F.eligible name value true id with
    hq | ⟨hn, hfresh, before, heq, hq⟩ | ⟨hn, index, element, et, mode, rfl, before, heq, hq⟩
  · rw [annotateStatement_assign F.proven name value id (Or.inl (not_proven hf hq))]
    refine quiet_rule hF hq fun X hout _ _ hback => ?_
    refine Agrees.bind (ih.assign name value Γ X S L hc hout) fun _ => Agrees.pure _ fun m hm => ?_
    exact (Ends.next (hback [] S L m (by simp) hm) (next rfl)).finishes
  · have hset : ∀ x index element t mode, value ≠ .arraySet x index element t mode := by
      rintro x index element t mode rfl
      rcases hfresh with ⟨t, h⟩ | ⟨es, t, h⟩ <;> cases h
    rw [annotateStatement_assign F.proven name value id (Or.inr hset)]
    have hops : (statementOperations F.eligible (.assign name value) id).1
        = before ++ [.freshArray name] := heq
    refine making_rule name hq (hops ▸ unique_fresh before name) hF fun X hout _ hback => ?_
    refine Agrees.bind (Q := fun _ m => At Γ (withName X name) S L m ∧ name ∈ Γ) ?_ fun _ =>
      Agrees.pure _ fun m hm => (Ends.next (hback [] S L m (by simpa using hm.2) (by simp) hm.1)
        (next rfl)).finishes
    cases n with
    | zero => exact outOfFuel_spec
    | succ k =>
      have hin : inPlace name value = false := by
        rcases hfresh with ⟨t, rfl⟩ | ⟨es, t, rfl⟩ <;> rfl
      have hbody : ∀ g, execAssign g (k + 1) name value = (do
          let v ← eval g k value
          assignVariable name v) := by
        intro g
        simp [execAssign, hin]
      rw [hbody, hbody]
      have hfreshEval := eval_fresh (n := k) (fun j hj => hv j (by omega)) value hfresh Γ (without X name) S
        L hc fun x hx => by simp [without, hout x hx]
      refine (Agrees.bind hfreshEval fun v => (assignVariable_sole_spec name v
        (without_self X name) (hscope.count_le name hn))).weaken
          (fun m hm => hm.anti (without_le X name)) fun _ m hm => ⟨hm.1.anti fun x hx => ?_, hm.2⟩
      by_cases hxn : x = name
      · simp [withName, hxn]
      · simpa [withName, without, hxn] using hx
  · simp only [Statement.checkedCow, ValueExpr.checkedCow, Bool.and_eq_true, beq_iff_eq] at hc
    obtain ⟨rfl, hci, hce⟩ := hc
    exact assignStore_spec hg hv name index element et hn hF hf hci hce
      (hscope.count_le name hn) hq heq

theorem arrayIndexAssign_spec (hg : Related opt g₁ g₂) (hv : Evaluates g₁ g₂ n) (root : String)
    (indices : List ValueExpr) (arrayTypes : List ValueType) (value : ValueExpr)
    (mode : ArrayMutationMode) :
    StepSpec g₁ g₂ n F (.arrayIndexAssign root indices arrayTypes value mode) id b targets Γ S L := by
  intro hF hf hc hscope
  simp only [Statement.checkedCow, Bool.and_eq_true, beq_iff_eq] at hc
  obtain ⟨rfl, hci, hcv⟩ := hc
  have hhead := hf
  obtain ⟨-, -, next, -, -, -, -⟩ := hhead
  obtain ⟨before, hq, heq⟩ := indexAssign_cases F.eligible root indices arrayTypes
    value .checkedCow id
  obtain ⟨mode, hmode⟩ : ∃ mode, mode
      = if id ∈ F.proven then ArrayMutationMode.checkedUnique else .checkedCow := ⟨_, rfl⟩
  have hann : annotateStatement F.proven
      (.arrayIndexAssign root indices arrayTypes value .checkedCow) id
      = .arrayIndexAssign root indices arrayTypes value mode := by
    rw [hmode]
    simp [annotateStatement, annotateChildren, annotateMode]
  have hmarked : mode = .checkedUnique → id ∈ F.proven := by
    intro h
    by_contra hid
    rw [hmode, if_neg hid] at h
    cases h
  rw [hann]
  have hindices : ∀ X, Outside X (touchedAll indices) →
      Agrees Bad (At Γ X S L) (evalIndices g₁ n indices) (evalIndices g₂ n indices)
        fun is m => is.length = indices.length ∧ At Γ X S L m := fun X hX =>
    (hv.evalIndices indices Γ X S L hci hX).also fun m is m' h =>
      evalIndices_length g₂ n indices m m' is h
  by_cases hr : root ∈ F.eligible
  · rw [if_pos hr] at heq
    refine making_rule root hq (heq ▸ unique_store before root id _) hF
      fun X hout hunique hback => ?_
    refine Agrees.bind (hindices X hout.left) fun is => Agrees.fact fun hlen => ?_
    refine Agrees.bind (hv.eval value Γ X S L hcv hout.right) fun v => ?_
    refine Agrees.bind (Q := fun _ m => At Γ (withName X root) S L m ∧ root ∈ Γ)
      (markedUpdate_spec mode root (hscope.count_le root hr) (fun hu => ?_)
        fun h => ?_) fun _ =>
        Agrees.pure _ fun m hm => (Ends.next (hback [] S L m (by simpa using hm.2) (by simp) hm.1)
          (next rfl)).finishes
    · obtain ⟨-, state, hs, hu⟩ := proven_store hf hq heq (hmarked hu)
      exact hunique state hs hr hu
    rw [hg.unmonitored]
    refine storePath_marked_spec g₁.monitor mode is h v fun hu => ?_
    obtain ⟨hflat, -⟩ := proven_store hf hq heq (hmarked hu)
    rw [hlen]
    simp only [decide_eq_true_eq] at hflat
    exact hflat.1
  · -- The root is not tracked, so it is in no `X`, and its store is not marked.
    rw [if_neg hr] at heq
    have hcow : mode = .checkedCow := by
      rw [hmode, if_neg (not_proven hf (heq ▸ hq))]
    rw [hcow]
    refine quiet_rule hF hq fun X hout hfree _ hback => ?_
    rw [← heq] at hback
    refine Agrees.bind ((hindices X hout.left).imp fun _ _ h => h.2) fun is => ?_
    refine Agrees.bind (hv.eval value Γ X S L hcv hout.right) fun v => ?_
    refine Agrees.bind (update_spec root (hfree root hr) fun h => ?_) fun _ =>
      Agrees.pure _ fun m hm => (Ends.next (hback [] S L m (by simp) hm) (next rfl)).finishes
    rw [hg.unmonitored]
    exact storePath_cow_spec g₁.monitor is h v

/-! ## All statements -/

theorem step_statement (hg : Related opt g₁ g₂) (hv : ∀ k ≤ n, Evaluates g₁ g₂ k)
    (ih : Executes g₁ g₂ n) : StatementSpec g₁ g₂ (n + 1) := by
  intro F s id b targets Γ S L hF hf hc hscope
  have hev := hv n (Nat.le_refl n)
  have hwrite : ∀ newline (v : Value) (X : String → Bool), Agrees Bad (At Γ X S (tally v.handles + L))
      (do write g₁.host newline v; pure Signal.next) (do write g₂.host newline v; pure Signal.next)
      fun signal m => signal = .next ∧ At Γ X S L m := by
    intro newline v X
    rw [hg.host]
    exact Agrees.bind (write_spec _ newline v) fun _ => Agrees.pure _ fun m hm => ⟨rfl, hm⟩
  have hhead := hf
  obtain ⟨-, -, next, breaks, repeats, -, -⟩ := hhead
  cases s with
  | letBind name t value => exact letBind_spec hg hv name t value hF hf hc hscope
  | letIf name t condition body elseBody => exact letIf_spec hev ih hF hf hc hscope
  | letMatch name t value enumName arms => exact letMatch_spec hev ih hF hf hc hscope
  | questionLet carrier name t value actions => exact questionLet_spec hev hF hf hc hscope
  | questionReturn carrier t value actions => exact questionReturn_spec hev hF hf hc hscope
  | letElse name t value variant elseBody => exact letElse_spec hev ih hF hf hc hscope
  | ifLet binding t value variant body elseBody => exact ifLet_spec hev ih hF hf hc hscope
  | ifThenElse condition body elseBody => exact ifThenElse_spec hev ih hF hf hc hscope
  | assign name value => exact assign_spec hg hv ih name value hF hf hc hscope
  | arrayIndexAssign root indices arrayTypes value mode =>
    exact arrayIndexAssign_spec hg hev root indices arrayTypes value mode hF hf hc hscope
  | matchOn value enumName arms => exact matchOn_spec hev ih hF hf hc hscope
  | assignField base field t value =>
    refine simple_rule (.assignField base field t value) id hF rfl (next rfl) fun X hout => ?_
    refine Agrees.bind (hev.eval value Γ X S L hc hout.tail) fun v => ?_
    refine Agrees.bind (storeField_spec [base, field] v ?_) fun _ => Agrees.pure _ fun m hm =>
      ⟨rfl, hm⟩
    intro root hroot
    have hb : base = root := by simpa using hroot
    exact hb ▸ hout base (by simp [headTouched])
  | println value | eprintln value =>
    exact simple_rule _ id hF rfl (next rfl) fun X hout =>
      Agrees.bind (hev.eval value Γ X S L hc hout) fun v => hwrite true v X
  | print value | eprint value =>
    exact simple_rule _ id hF rfl (next rfl) fun X hout =>
      Agrees.bind (hev.eval value Γ X S L hc hout) fun v => hwrite false v X
  | expr value =>
    exact simple_rule (.expr value) id hF rfl (next rfl) fun X hout =>
      Agrees.bind (hev.eval value Γ X S L hc hout) fun v =>
        Agrees.bind (discard_spec v) fun _ => Agrees.pure _ fun m hm => ⟨rfl, hm⟩
  | panic message =>
    refine plain_rule (.panic message) id hF rfl fun X hout _ => ?_
    refine Agrees.bind (hev.eval message Γ X S L hc hout) fun v => ?_
    rw [hg.host]
    exact panicWith_spec _ v
  | returnValue value =>
    cases value with
    | none =>
      refine plain_rule (.returnValue none) id hF rfl fun X _ _ => Agrees.pure _ fun m hm => ?_
      exact (Ends.returned .unit (hm.weaken fun g => by simp)).finishes
    | some value =>
      refine plain_rule (.returnValue (some value)) id hF rfl fun X hout _ => ?_
      refine Agrees.bind (hev.eval value Γ X S L hc hout) fun v => Agrees.pure _ fun m hm => ?_
      exact (Ends.returned v hm).finishes
  | breakLoop =>
    refine plain_rule .breakLoop id hF rfl fun X _ hback => Agrees.pure _ fun m hm => ?_
    refine Ends.finishes ⟨(hm.anti fun _ hx => (Bool.false_ne_true hx).elim).weaken fun g => by
      simp [Signal.handles], fun t ht => ?_⟩
    exact (hback [] S L m (by simp) hm).pass (breaks rfl t ht)
  | continueLoop =>
    refine plain_rule .continueLoop id hF rfl fun X _ hback => Agrees.pure _ fun m hm => ?_
    refine Ends.finishes ⟨(hm.anti fun _ hx => (Bool.false_ne_true hx).elim).weaken fun g => by
      simp [Signal.handles], fun t ht => ?_⟩
    exact (hback [] S L m (by simp) hm).pass (repeats rfl t ht)
  | defer call =>
    exact simple_rule (.defer call) id hF rfl (next rfl) fun X _ => Agrees.pure _ fun m hm =>
      ⟨rfl, hm⟩
  | taskSelect arms => exact unsupported_spec
  | loop kind body =>
    exact (ih.loop F kind body id b targets Γ S L hF hf hc hscope).imp fun _ _ hm => hm.finishes

theorem Executes.succ (hg : Related opt g₁ g₂) (hv : ∀ k ≤ n, Evaluates g₁ g₂ k)
    (ih : Executes g₁ g₂ n) : Executes g₁ g₂ (n + 1) where
  statement := step_statement hg hv ih
  statements := step_statements ih.statement ih.statements
  block := step_block ih.statements ih.deferred
  arm := step_arm ih.block
  deferred := step_deferred hg (hv n (Nat.le_refl n)) ih.deferred
  assign := step_assign hg (hv n (Nat.le_refl n))
  loop _ kind body id b targets Γ S L hF hf hc hscope :=
    step_loop (hv n (Nat.le_refl n)) ih kind body id b targets Γ S L hF hf hc hscope
  forever _ _ _ _ _ _ _ _ _ hF hl := step_forever ih hF hl
  whileTrue _ condition _ _ _ _ _ _ _ _ hF hl hp hc :=
    step_whileTrue (hv n (Nat.le_refl n)) ih hF condition hl hp hc
  cStyle _ binding condition update _ _ _ _ _ _ _ _ hF hl hp hc hcu hclear :=
    step_cStyle (hv n (Nat.le_refl n)) ih hF binding condition update hl hp hc hcu hclear
  iterate _ binding h i _ _ _ _ _ _ _ _ hF hl hp hheader hclear :=
    step_iterate ih hF binding h i hl hp hheader hclear

end Nomo.Mir
