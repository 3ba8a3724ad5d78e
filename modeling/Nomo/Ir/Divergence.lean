import Nomo.Ir.Interpreter

/-!
# The else branch of a let-else

`statements_diverge` (`nomo_compiler/src/statements/statement_blocks.rs:3–30`) decides which blocks are
accepted as the else branch of a let-else: those that must not complete.  It counts every infinite loop
as one that does not, also one that a `break` leaves.

`Takes` are the paths through a block, with each condition and each test of a variant either way.  Every
execution follows one (`takes_of_execBlock`).  `let_else_iff` says which accepted blocks have no path
that completes: those in which no infinite loop at an end of the block is left.
-/

namespace Nomo.Ir

/-- How a block ends. -/
inductive Exit where
  | next | breakLoop | continueLoop | returned
deriving DecidableEq, Repr

/-- The end that a signal stands for. -/
def Signal.exit : Signal → Exit
  | .next => .next
  | .breakLoop => .breakLoop
  | .continueLoop => .continueLoop
  | .returned _ => .returned

/-- A loop goes on after a round that ends so. -/
def Exit.goesOn : Exit → Bool
  | .next | .continueLoop => true
  | _ => false

/-- `LoopKind::Infinite`. -/
def LoopKind.isInfinite : LoopKind → Bool
  | .infinite => true
  | _ => false

/-! ## The check -/

mutual

/-- `statement_diverges`. -/
def statementDiverges : Statement → Bool
  | .returnValue _ | .questionReturn .. | .panic _ | .breakLoop | .continueLoop => true
  | .matchOn _ _ arms => armsDiverge arms
  | .ifThenElse _ body elseBody => statementsDiverge body && statementsDiverge elseBody
  | .ifLet _ _ _ _ body (some elseBody) => statementsDiverge body && statementsDiverge elseBody
  | .loop kind _ => kind.isInfinite
  | _ => false

/-- `statements_diverge`: the last statement does. -/
def statementsDiverge : List Statement → Bool
  | [] => false
  | [statement] => statementDiverges statement
  | _ :: rest => statementsDiverge rest

/-- Every arm of a match diverges. -/
def armsDiverge : List MatchStatementArm → Bool
  | [] => true
  | ⟨_, _, body⟩ :: arms => statementsDiverge body && armsDiverge arms

end

/-! ## Paths -/

/-- The statements without blocks that always complete, if they do not stop the program. -/
def Statement.isSimple : Statement → Bool
  | .letBind .. | .assign .. | .assignField .. | .arrayIndexAssign .. | .eprintln _ | .eprint _
  | .println _ | .print _ | .expr _ | .defer _ => true
  | _ => false

/-- The paths through a block, by how they end.  Conditions and tested values may be anything. -/
inductive Takes : List Statement → Exit → Prop
  | nil : Takes [] .next
  | stop {statement rest exit} (h : Takes [statement] exit) (hexit : exit ≠ .next) :
      Takes (statement :: rest) exit
  | step {statement rest exit} (h : Takes [statement] .next) (hrest : Takes rest exit) :
      Takes (statement :: rest) exit
  | simple {statement} (h : statement.isSimple = true) : Takes [statement] .next
  | letIfThen {name valueType condition body elseBody exit} (h : Takes body exit) :
      Takes [.letIf name valueType condition body elseBody] exit
  | letIfElse {name valueType condition body elseBody exit} (h : Takes elseBody exit) :
      Takes [.letIf name valueType condition body elseBody] exit
  | letMatch {name valueType value enumName arms arm exit} (harm : arm ∈ arms)
      (h : Takes arm.body exit) : Takes [.letMatch name valueType value enumName arms] exit
  | questionLet {carrier name valueType resultExpr actions} :
      Takes [.questionLet carrier name valueType resultExpr actions] .next
  | questionLetReturn {carrier name valueType resultExpr actions} :
      Takes [.questionLet carrier name valueType resultExpr actions] .returned
  | questionReturn {carrier okType resultExpr actions} :
      Takes [.questionReturn carrier okType resultExpr actions] .returned
  | letElse {binding valueType value variant elseBody} :
      Takes [.letElse binding valueType value variant elseBody] .next
  | letElseElse {binding valueType value variant elseBody exit} (h : Takes elseBody exit) :
      Takes [.letElse binding valueType value variant elseBody] exit
  | ifLetThen {binding valueType value variant body elseBody exit} (h : Takes body exit) :
      Takes [.ifLet binding valueType value variant body elseBody] exit
  | ifLetElse {binding valueType value variant body elseBody exit} (h : Takes elseBody exit) :
      Takes [.ifLet binding valueType value variant body (some elseBody)] exit
  | ifLetSkip {binding valueType value variant body} :
      Takes [.ifLet binding valueType value variant body none] .next
  | ifThen {condition body elseBody exit} (h : Takes body exit) :
      Takes [.ifThenElse condition body elseBody] exit
  | ifElse {condition body elseBody exit} (h : Takes elseBody exit) :
      Takes [.ifThenElse condition body elseBody] exit
  | returnValue {value} : Takes [.returnValue value] .returned
  | matchOn {value enumName arms arm exit} (harm : arm ∈ arms) (h : Takes arm.body exit) :
      Takes [.matchOn value enumName arms] exit
  | taskSelect {arms arm exit} (harm : arm ∈ arms) (h : Takes arm.body exit) :
      Takes [.taskSelect arms] exit
  | loopEnd {kind body} (h : kind.isInfinite = false) : Takes [.loop kind body] .next
  | loopLeave {kind body} (h : Takes body .breakLoop) : Takes [.loop kind body] .next
  | loopReturn {kind body} (h : Takes body .returned) : Takes [.loop kind body] .returned
  | loopRound {kind body round exit} (h : Takes body round) (hround : round.goesOn = true)
      (hrest : Takes [.loop kind body] exit) : Takes [.loop kind body] exit
  | breakLoop : Takes [.breakLoop] .breakLoop
  | continueLoop : Takes [.continueLoop] .continueLoop

/-! ## Executions follow paths -/

/-- Whatever an action gives, in any state, satisfies `P`. -/
def Gives {α : Type} (x : Exec α) (P : α → Prop) : Prop :=
  ∀ m a m', x m = .ok a m' → P a

section

variable {α β : Type} {x : Exec α} {f : α → Exec β} {P : α → Prop} {Q : β → Prop}

theorem gives_true (x : Exec α) : Gives x fun _ => True :=
  fun _ _ _ _ => trivial

theorem Gives.bind (hx : Gives x P) (hf : ∀ a, P a → Gives (f a) Q) : Gives (x >>= f) Q := by
  intro m b m' h
  replace h : EStateM.bind x f m = .ok b m' := h
  unfold EStateM.bind at h
  cases hm : x m with
  | ok a m₁ =>
    rw [hm] at h
    exact hf a (hx m a m₁ hm) m₁ b m' h
  | error e m₁ =>
    rw [hm] at h
    exact nomatch h

theorem gives_bind (hf : ∀ a, Gives (f a) Q) : Gives (x >>= f) Q :=
  (gives_true x).bind fun a _ => hf a

theorem gives_pure {a : α} (h : P a) : Gives (pure a) P := by
  intro m b m' hb
  cases hb
  exact h

theorem gives_throw {e : Stop} : Gives (throw e : Exec α) P :=
  fun _ _ _ h => nomatch h

theorem gives_unsupported : Gives (unsupported : Exec α) P :=
  gives_throw

end

/-- The signal ends as some path through the block does. -/
def Follows (body : List Statement) (signal : Signal) : Prop := Takes body signal.exit

theorem armBody_mem {arms : List MatchStatementArm} {variant : String} {body : List Statement}
    (h : armBody arms variant = some body) : ∃ arm ∈ arms, arm.body = body := by
  induction arms with
  | nil => exact nomatch h
  | cons arm arms ih =>
    obtain ⟨name, binding, armStatements⟩ := arm
    unfold armBody at h
    split_ifs at h with hname
    · cases h
      exact ⟨_, List.mem_cons_self .., rfl⟩
    · obtain ⟨arm, harm, hbody⟩ := ih h
      exact ⟨arm, List.mem_cons_of_mem _ harm, hbody⟩

/-- What is known of executions with some fuel. -/
structure FollowsAt (g : Setting) (n : ℕ) : Prop where
  statement : ∀ s, Gives (exec g n s) (Follows [s])
  all : ∀ body deferred, Gives (execAll g n body deferred) fun result => Follows body result.1
  block : ∀ body, Gives (execBlock g n body) (Follows body)
  arm : ∀ arms variant, Gives (execArm g n arms variant) fun signal =>
    ∃ arm ∈ arms, Follows arm.body signal
  loop : ∀ kind body, Gives (execLoop g n kind body) (Follows [.loop kind body])
  forever : ∀ body, Gives (loopForever g n body) (Follows [.loop .infinite body])
  whileTrue : ∀ condition body,
    Gives (loopWhile g n condition body) (Follows [.loop (.whileTrue condition) body])
  cStyle : ∀ binding condition update body kind, kind.isInfinite = false →
    Gives (loopCStyle g n binding condition update body) (Follows [.loop kind body])
  iterate : ∀ binding h i body kind, kind.isInfinite = false →
    Gives (loopIterate g n binding h i body) (Follows [.loop kind body])

theorem gives_round {kind : LoopKind} {body : List Statement} {signal : Signal}
    {again : Exec Signal} (hround : Follows body signal)
    (hagain : Gives again (Follows [.loop kind body])) :
    Gives (match signal with
      | .next | .continueLoop => again
      | .breakLoop => pure .next
      | .returned v => pure (.returned v)) (Follows [.loop kind body]) := by
  cases signal with
  | next | continueLoop => exact fun m a m' h => .loopRound hround rfl (hagain m a m' h)
  | breakLoop => exact gives_pure (.loopLeave hround)
  | returned v => exact gives_pure (.loopReturn hround)

theorem followsAt_zero (g : Setting) : FollowsAt g 0 where
  statement _ := by unfold exec; exact gives_throw
  all _ _ := by unfold execAll; exact gives_throw
  block _ := by unfold execBlock; exact gives_throw
  arm _ _ := by unfold execArm; exact gives_throw
  loop _ _ := by unfold execLoop; exact gives_throw
  forever _ := by unfold loopForever; exact gives_throw
  whileTrue _ _ := by unfold loopWhile; exact gives_throw
  cStyle _ _ _ _ _ _ := by unfold loopCStyle; exact gives_throw
  iterate _ _ _ _ _ _ := by unfold loopIterate; exact gives_throw

section

variable {g : Setting} {n : ℕ} (ih : FollowsAt g n)

include ih

theorem statement_follows (s : Statement) : Gives (exec g (n + 1) s) (Follows [s]) := by
  unfold exec
  cases s with
  | letBind | assignField | eprintln | eprint | println | print | expr =>
    exact gives_bind fun _ => gives_bind fun _ => gives_pure (.simple rfl)
  | letIf name valueType condition body elseBody =>
    refine gives_bind fun b => gives_bind fun _ => ?_
    cases b with
    | true => exact fun m a m' h => .letIfThen (ih.block body m a m' h)
    | false => exact fun m a m' h => .letIfElse (ih.block elseBody m a m' h)
  | letMatch name valueType value enumName arms =>
    refine gives_bind fun _ => gives_bind fun split => gives_bind fun _ => gives_bind fun _ => ?_
    intro m a m' h
    obtain ⟨arm, harm, hbody⟩ := ih.arm arms split.1 m a m' h
    exact .letMatch harm hbody
  | questionLet =>
    refine gives_bind fun _ => gives_bind fun split => ?_
    dsimp only
    split_ifs
    · exact gives_bind fun _ => gives_bind fun _ => gives_pure .questionLetReturn
    · split
      · exact gives_bind fun _ => gives_pure .questionLet
      · exact gives_unsupported
  | questionReturn =>
    refine gives_bind fun _ => gives_bind fun split => ?_
    dsimp only
    split_ifs
    · exact gives_bind fun _ => gives_bind fun _ => gives_pure .questionReturn
    · exact gives_pure .questionReturn
  | letElse binding valueType value variant elseBody =>
    refine gives_bind fun _ => gives_bind fun split => ?_
    dsimp only
    split_ifs
    · split
      · exact gives_bind fun _ => gives_pure .letElse
      · exact gives_unsupported
    · refine gives_bind fun _ => ?_
      exact fun m a m' h => .letElseElse (ih.block elseBody m a m' h)
  | ifLet binding valueType value variant body elseBody =>
    refine gives_bind fun _ => gives_bind fun split => ?_
    have hbody : Gives (execBlock g n body)
        (Follows [.ifLet binding valueType value variant body elseBody]) :=
      fun m a m' h => .ifLetThen (ih.block body m a m' h)
    dsimp only
    split_ifs
    · split
      · refine gives_bind fun _ => gives_bind fun _ => hbody.bind fun signal hsignal => ?_
        exact gives_bind fun _ => gives_pure hsignal
      · exact gives_bind fun _ => hbody
    · refine gives_bind fun _ => ?_
      cases elseBody with
      | some elseBody => exact fun m a m' h => .ifLetElse (ih.block elseBody m a m' h)
      | none => exact gives_pure .ifLetSkip
  | ifThenElse condition body elseBody =>
    refine gives_bind fun b => ?_
    cases b with
    | true => exact fun m a m' h => .ifThen (ih.block body m a m' h)
    | false => exact fun m a m' h => .ifElse (ih.block elseBody m a m' h)
  | assign => exact gives_bind fun _ => gives_pure (.simple rfl)
  | arrayIndexAssign =>
    exact gives_bind fun _ => gives_bind fun _ => gives_bind fun _ => gives_pure (.simple rfl)
  | panic message =>
    refine gives_bind fun v => ?_
    unfold panicWith
    exact fun _ _ _ h => nomatch h
  | returnValue value =>
    cases value with
    | none => exact gives_pure .returnValue
    | some value => exact gives_bind fun _ => gives_pure .returnValue
  | matchOn value enumName arms =>
    refine gives_bind fun _ => gives_bind fun split => gives_bind fun _ => ?_
    intro m a m' h
    obtain ⟨arm, harm, hbody⟩ := ih.arm arms split.1 m a m' h
    exact .matchOn harm hbody
  | taskSelect arms => exact gives_unsupported
  | loop kind body => exact ih.loop kind body
  | breakLoop => exact gives_pure .breakLoop
  | continueLoop => exact gives_pure .continueLoop
  | defer call => exact gives_pure (.simple rfl)

theorem all_follows (body : List Statement) (deferred : List DeferredCall) :
    Gives (execAll g (n + 1) body deferred) fun result => Follows body result.1 := by
  have hnext : ∀ {s rest deferred}, Takes [s] .next →
      Gives (execAll g n rest deferred) fun result => Follows (s :: rest) result.1 :=
    fun hs m a m' h => .step hs (ih.all _ _ m a m' h)
  cases body with
  | nil =>
    unfold execAll
    exact gives_pure .nil
  | cons s rest =>
    unfold execAll
    split
    next call => exact hnext (.simple rfl)
    next =>
      refine (ih.statement s).bind fun signal hsignal => ?_
      cases signal with
      | next => exact hnext hsignal
      | breakLoop | continueLoop | returned v => exact gives_pure (.stop hsignal nofun)

theorem block_follows (body : List Statement) : Gives (execBlock g (n + 1) body) (Follows body) := by
  unfold execBlock
  refine gives_bind fun _ => (ih.all body []).bind fun result hresult => ?_
  exact gives_bind fun _ => gives_bind fun _ => gives_pure hresult

theorem arm_follows (arms : List MatchStatementArm) (variant : String) :
    Gives (execArm g (n + 1) arms variant) fun signal => ∃ arm ∈ arms, Follows arm.body signal := by
  unfold execArm
  split
  next body hbody =>
    obtain ⟨arm, harm, rfl⟩ := armBody_mem hbody
    exact fun m a m' h => ⟨arm, harm, ih.block _ m a m' h⟩
  next => exact gives_unsupported

theorem forever_follows (body : List Statement) :
    Gives (loopForever g (n + 1) body) (Follows [.loop .infinite body]) := by
  unfold loopForever
  exact (ih.block body).bind fun signal hsignal => gives_round hsignal (ih.forever body)

theorem while_follows (condition : ValueExpr) (body : List Statement) :
    Gives (loopWhile g (n + 1) condition body) (Follows [.loop (.whileTrue condition) body]) := by
  unfold loopWhile
  refine gives_bind fun b => ?_
  split_ifs
  · exact (ih.block body).bind fun signal hsignal =>
      gives_round hsignal (ih.whileTrue condition body)
  · exact gives_pure (.loopEnd rfl)

theorem cStyle_follows (binding : String) (condition update : ValueExpr) (body : List Statement)
    (kind : LoopKind) (hkind : kind.isInfinite = false) :
    Gives (loopCStyle g (n + 1) binding condition update body) (Follows [.loop kind body]) := by
  unfold loopCStyle
  refine gives_bind fun b => ?_
  split_ifs
  · refine (ih.block body).bind fun signal hsignal => ?_
    exact gives_round hsignal
      (gives_bind fun _ => gives_bind fun _ => ih.cStyle binding condition update body kind hkind)
  · exact gives_pure (.loopEnd hkind)

theorem iterate_follows (binding : String) (h i : ℕ) (body : List Statement) (kind : LoopKind)
    (hkind : kind.isInfinite = false) :
    Gives (loopIterate g (n + 1) binding h i body) (Follows [.loop kind body]) := by
  unfold loopIterate
  refine gives_bind fun v => ?_
  split
  · refine gives_bind fun _ => gives_bind fun _ => (ih.block body).bind fun signal hsignal => ?_
    exact gives_bind fun _ => gives_round hsignal (ih.iterate binding h (i + 1) body kind hkind)
  · exact gives_pure (.loopEnd hkind)

theorem loop_follows (kind : LoopKind) (body : List Statement) :
    Gives (execLoop g (n + 1) kind body) (Follows [.loop kind body]) := by
  unfold execLoop
  cases kind with
  | infinite => exact ih.forever body
  | whileTrue condition => exact ih.whileTrue condition body
  | cStyle binding valueType initializer condition update =>
    refine gives_bind fun _ => gives_bind fun _ => gives_bind fun _ => ?_
    let kind := LoopKind.cStyle binding valueType initializer condition update
    refine (ih.cStyle binding condition update body kind rfl).bind fun signal hsignal => ?_
    exact gives_bind fun _ => gives_pure hsignal
  | iterate binding elementType iterable =>
    refine gives_bind fun _ => gives_bind fun h => ?_
    let kind := LoopKind.iterate binding elementType iterable
    refine (ih.iterate binding h 0 body kind rfl).bind fun signal hsignal => ?_
    exact gives_bind fun _ => gives_pure hsignal

end

/-- **Every execution follows a path**, by induction on the fuel. -/
theorem followsAt (g : Setting) (n : ℕ) : FollowsAt g n := by
  induction n with
  | zero => exact followsAt_zero g
  | succ n ih =>
    exact
      { statement := statement_follows ih
        all := all_follows ih
        block := block_follows ih
        arm := arm_follows ih
        loop := loop_follows ih
        forever := forever_follows ih
        whileTrue := while_follows ih
        cStyle := cStyle_follows ih
        iterate := iterate_follows ih }

theorem takes_of_execBlock {g : Setting} {n : ℕ} {body : List Statement} {m m' : Machine}
    {signal : Signal} (h : execBlock g n body m = .ok signal m') : Takes body signal.exit :=
  (followsAt g n).block body m signal m' h

/-! ## Loops that are left -/

mutual

/-- An infinite loop that stands for the end of the statement is left by a `break`. -/
inductive LeavesLoop : Statement → Prop
  | loop {body} (h : Takes body .breakLoop) : LeavesLoop (.loop .infinite body)
  | arm {value enumName arms arm} (harm : arm ∈ arms) (h : EndLeavesLoop arm.body) :
      LeavesLoop (.matchOn value enumName arms)
  | ifThen {condition body elseBody} (h : EndLeavesLoop body) :
      LeavesLoop (.ifThenElse condition body elseBody)
  | ifElse {condition body elseBody} (h : EndLeavesLoop elseBody) :
      LeavesLoop (.ifThenElse condition body elseBody)
  | ifLetThen {binding valueType value variant body elseBody} (h : EndLeavesLoop body) :
      LeavesLoop (.ifLet binding valueType value variant body (some elseBody))
  | ifLetElse {binding valueType value variant body elseBody} (h : EndLeavesLoop elseBody) :
      LeavesLoop (.ifLet binding valueType value variant body (some elseBody))

/-- The end of the block is reached, and is such a loop. -/
inductive EndLeavesLoop : List Statement → Prop
  | last {statement} (h : LeavesLoop statement) : EndLeavesLoop [statement]
  | step {statement rest} (h : Takes [statement] .next) (hrest : EndLeavesLoop rest) :
      EndLeavesLoop (statement :: rest)

end

mutual

theorem takes_of_leavesLoop {s : Statement} (h : LeavesLoop s) : Takes [s] .next :=
  match h with
  | .loop h => .loopLeave h
  | .arm harm h => .matchOn harm (takes_of_endLeavesLoop h)
  | .ifThen h => .ifThen (takes_of_endLeavesLoop h)
  | .ifElse h => .ifElse (takes_of_endLeavesLoop h)
  | .ifLetThen h => .ifLetThen (takes_of_endLeavesLoop h)
  | .ifLetElse h => .ifLetElse (takes_of_endLeavesLoop h)

theorem takes_of_endLeavesLoop {body : List Statement} (h : EndLeavesLoop body) :
    Takes body .next :=
  match h with
  | .last h => takes_of_leavesLoop h
  | .step h hrest => .step h (takes_of_endLeavesLoop hrest)

end

theorem armsDiverge_mem {arms : List MatchStatementArm} (h : armsDiverge arms = true)
    {arm : MatchStatementArm} (harm : arm ∈ arms) : statementsDiverge arm.body = true := by
  induction arms with
  | nil => exact nomatch harm
  | cons first arms ih =>
    obtain ⟨variant, binding, body⟩ := first
    rw [armsDiverge, Bool.and_eq_true] at h
    rcases List.mem_cons.1 harm with rfl | harm
    · exact h.1
    · exact ih h.2 harm

theorem statementDiverges_simple {s : Statement} (h : s.isSimple = true) :
    statementDiverges s = false := by
  cases s <;> first | rfl | cases h

/-- A path through an accepted block that completes leaves an infinite loop at its end, by induction on
the path. -/
theorem endLeavesLoop_of_takes {body : List Statement} {exit : Exit} (h : Takes body exit)
    (hexit : exit = .next) (haccepted : statementsDiverge body = true) : EndLeavesLoop body := by
  induction h with
  | nil | letIfThen | letIfElse | letMatch | questionLet | questionLetReturn | letElse | letElseElse
      | ifLetSkip | taskSelect => exact nomatch haccepted
  | stop _ hne => exact absurd hexit hne
  | @step s rest exit h hrest ih ihrest =>
    cases rest with
    | nil => exact ih rfl haccepted
    | cons t rest => exact .step h (ihrest hexit haccepted)
  | simple h => exact absurd (haccepted.symm.trans (statementDiverges_simple h)) (by decide)
  | questionReturn | returnValue | loopReturn | breakLoop | continueLoop => exact nomatch hexit
  | @ifLetThen binding valueType value variant body elseBody exit h ih =>
    cases elseBody with
    | none => exact nomatch haccepted
    | some elseBody => exact .last (.ifLetThen (ih hexit (Bool.and_eq_true_iff.1 haccepted).1))
  | ifLetElse h ih => exact .last (.ifLetElse (ih hexit (Bool.and_eq_true_iff.1 haccepted).2))
  | ifThen h ih => exact .last (.ifThen (ih hexit (Bool.and_eq_true_iff.1 haccepted).1))
  | ifElse h ih => exact .last (.ifElse (ih hexit (Bool.and_eq_true_iff.1 haccepted).2))
  | matchOn harm h ih => exact .last (.arm harm (ih hexit (armsDiverge_mem haccepted harm)))
  | loopEnd hkind => exact absurd (hkind.symm.trans haccepted) (by decide)
  | @loopLeave kind body h =>
    cases kind with
    | infinite => exact .last (.loop h)
    | whileTrue | cStyle | iterate => exact nomatch haccepted
  | loopRound _ _ _ _ ihrest => exact ihrest hexit haccepted

/-- Where a let-else completes, the tested variant is the actual one, or the else branch completes. -/
theorem exec_letElse {g : Setting} {n : ℕ} {binding : String} {valueType : ValueType}
    {value : ValueExpr} {variant : String} {elseBody : List Statement} {m m' : Machine}
    (h : exec g (n + 1) (.letElse binding valueType value variant elseBody) m = .ok .next m') :
    (∃ payload m₁, eval g n value m = .ok (.enum variant [payload]) m₁ ∧
        m' = { m₁ with frame := (binding, payload) :: m₁.frame }) ∨
      ∃ m₁, execBlock g n elseBody m₁ = .ok .next m' := by
  unfold exec at h
  change EStateM.bind (eval g n value) _ m = EStateM.Result.ok Signal.next m' at h
  unfold EStateM.bind at h
  cases hvalue : eval g n value m with
  | error e m₁ =>
    rw [hvalue] at h
    cases h
  | ok v m₁ =>
    rw [hvalue] at h
    cases v with
    | enum actual payload =>
      simp only [splitVariant, pure_bind] at h
      split_ifs at h with hvariant
      · subst hvariant
        split at h
        next p =>
          cases h
          exact Or.inl ⟨p, m₁, rfl, rfl⟩
        next => cases h
      · exact Or.inr ⟨_, h⟩
    | literal | functionRef | array | struct => cases h

/-- **The check of else branches** accepts only blocks without a path that completes, but for blocks
with an infinite loop at an end that a `break` leaves.  Of the other accepted blocks no execution
completes, and so a let-else completes only where its variant is the actual one. -/
theorem let_else_iff {elseBody : List Statement} (haccepted : statementsDiverge elseBody = true) :
    ((∀ exit, Takes elseBody exit → exit ≠ .next) ↔ ¬ EndLeavesLoop elseBody) ∧
      (¬ EndLeavesLoop elseBody →
        ∀ (g : Setting) (n : ℕ) (m m' : Machine),
          execBlock g n elseBody m ≠ .ok .next m' ∧
          ∀ binding valueType value variant,
            exec g (n + 1) (.letElse binding valueType value variant elseBody) m = .ok .next m' →
              ∃ payload m₁, eval g n value m = .ok (.enum variant [payload]) m₁ ∧
                m' = { m₁ with frame := (binding, payload) :: m₁.frame }) := by
  have hexecution : ¬ EndLeavesLoop elseBody → ∀ g n m m',
      execBlock g n elseBody m ≠ .ok .next m' := fun hleaves g n m m' h =>
    hleaves (endLeavesLoop_of_takes (takes_of_execBlock h) rfl haccepted)
  refine ⟨⟨fun h hleaves => ?_, fun hleaves exit h hexit => ?_⟩, fun hleaves g n m m' => ?_⟩
  · exact h .next (takes_of_endLeavesLoop hleaves) rfl
  · exact hleaves (endLeavesLoop_of_takes h hexit haccepted)
  · refine ⟨hexecution hleaves g n m m', fun binding valueType value variant h => ?_⟩
    rcases exec_letElse h with hactual | ⟨m₁, helse⟩
    · exact hactual
    · exact absurd helse (hexecution hleaves g n m₁ m')

/-- A return has no loop to leave. -/
theorem let_else_return : ¬ Takes [.returnValue none] .next := by
  intro hnext
  have haccepted : statementsDiverge [.returnValue none] = true := rfl
  refine (let_else_iff haccepted).1.2 ?_ .next hnext rfl
  intro h
  cases h with
  | last h => exact nomatch h
  | step h hrest => exact nomatch hrest

/-- `for { break }`. -/
def leftLoop : List Statement := [.loop .infinite [.breakLoop]]

/-- A program without functions, and a host that answers nothing. -/
def idleSetting : Setting where
  host :=
    { primitive := fun _ _ _ _ => ⟨false, none⟩
      external := fun _ _ _ _ => ⟨false, none⟩
      display := fun _ _ => "" }
  monitor := false
  program := ⟨[]⟩

/-- A machine before anything has run. -/
def idleMachine : Machine := ⟨[], [], [], [], [], 0⟩

/-- `for { break }` is accepted as an else branch, and completes. -/
theorem left_loop_completes :
    statementsDiverge leftLoop = true ∧
      execBlock idleSetting 10 leftLoop idleMachine = .ok .next idleMachine ∧
      exec idleSetting 11 (.letElse "x" .int (.enumVariant "Option" [.int] "None" none) "Some" leftLoop)
        idleMachine = .ok .next idleMachine := by
  exact ⟨rfl, rfl, rfl⟩

end Nomo.Ir
