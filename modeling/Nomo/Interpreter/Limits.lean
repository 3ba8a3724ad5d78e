import Nomo.Interpreter.Levels

/-!
# The limits of the browser interpreter

A run stays inside its limits at every point: its output, the number of its frames, and the steps it
counts. And it comes to an end: every level of calls below counts a step, so the steps that are left
bound the levels that a run needs. Only a limit of as many steps as a counter can hold is none, since
the counter stops there.
-/

namespace Nomo.Interpreter

open Nomo.Lib.Trace

variable {Op F : Type} {operations : Operations Op F} {program : Program Op F}
  {limits : ExecutionLimits} {may : Prop} {d k n : ℕ}

/-- What is captured, the frames and the steps are inside the limits. The step over the limit is
counted, too. -/
structure Inside (limits : ExecutionLimits) (machine : Machine F) : Prop where
  output : machine.outputBytes ≤ limits.maxOutputBytes
  depth : machine.frames.length ≤ limits.maxCallDepth
  steps : machine.steps ≤ limits.maxSteps + 1

/-- Between evaluations, with `d` frames, and after `k` steps if the run must come to an end. -/
structure At (limits : ExecutionLimits) (may : Prop) (d k : ℕ) (machine : Machine F) : Prop where
  inside : Inside limits machine
  frames : machine.frames.length = d
  steps : machine.steps ≤ limits.maxSteps
  counted : may ∨ k ≤ machine.steps

/-- From such a state to such a state, inside the limits. -/
abbrev Stays {α : Type} (limits : ExecutionLimits) (may : Prop) (d k : ℕ) (run : Run F α) : Prop :=
  Keeps (Inside limits) may (At limits may d k) run

theorem At.mono {k' : ℕ} (hk : k' ≤ k) {machine : Machine F} (h : At limits may d k machine) :
    At limits may d k' machine :=
  ⟨h.inside, h.frames, h.steps, h.counted.imp_right hk.trans⟩

theorem runs_of_lt {α : Type} {run : Run F α} {after : α → Machine F → Prop} (hmay : ¬ may)
    (hk : limits.maxSteps < k) : Runs (Inside limits) may (At limits may d k) run after := by
  intro machine h
  rcases h.counted with hcounted | hcounted
  · exact absurd hcounted hmay
  · exact absurd h.steps (by omega)

/-! ## Steps and output -/

/-- **A step is counted.** -/
theorem tick_runs (hmax : may ∨ limits.maxSteps < u64Max) :
    Runs (Inside limits) may (At limits may d k) (tick limits : Run F Unit)
      (fun _ => At limits may d (k + 1)) := by
  have hcount : Runs (Inside limits) may (At limits may d k)
      (.update fun machine => { machine with steps := min (machine.steps + 1) u64Max } : Run F Unit)
      (fun _ machine => Inside limits machine ∧ machine.frames.length = d ∧
        (may ∨ k + 1 ≤ machine.steps)) := by
    refine Runs.update ?_ ?_
    · intro machine h
      refine ⟨h.inside.output, h.inside.depth, ?_⟩
      exact (Nat.min_le_left _ _).trans (Nat.succ_le_succ h.steps)
    intro machine h
    refine ⟨⟨h.inside.output, h.inside.depth, ?_⟩, h.frames, ?_⟩
    · exact (Nat.min_le_left _ _).trans (Nat.succ_le_succ h.steps)
    rcases hmax with hmay | hmax
    · exact .inl hmay
    · refine h.counted.imp_right fun hcounted => ?_
      have hsteps := h.steps
      show k + 1 ≤ min (machine.steps + 1) u64Max
      omega
  refine hcount.bind fun _ => (Runs.read Machine.steps).bind fun steps => ?_
  by_cases hsteps : steps > limits.maxSteps
  · rw [if_pos hsteps]
    exact Runs.fail _
  · rw [if_neg hsteps]
    refine (Runs.pure ()).weaken (fun _ h => h) ?_
    rintro _ machine ⟨⟨hinside, hframes, hcounted⟩, rfl⟩
    exact ⟨hinside, hframes, Nat.le_of_not_lt hsteps, hcounted⟩

theorem tick_stays (hmax : may ∨ limits.maxSteps < u64Max) :
    Stays limits may d k (tick limits : Run F Unit) :=
  (tick_runs hmax).weaken (fun _ h => h) fun _ _ h => h.mono (Nat.le_succ k)

theorem after_tick {α : Type} (hmax : may ∨ limits.maxSteps < u64Max) {run : Run F α}
    (h : Stays limits may d (k + 1) run) :
    Stays limits may d k (do
      tick limits
      run) :=
  ((tick_runs hmax).bind fun _ => h).weaken (fun _ h => h) fun _ _ h => h.mono (Nat.le_succ k)

/-- **Output is written only inside its limit.** -/
theorem writeOutput_stays (floats : Floats F) (value : Value F) (newline stderr : Bool) :
    Stays limits may d k (writeOutput floats limits value newline stderr) := by
  unfold writeOutput
  refine (Runs.read Machine.outputBytes).bind fun bytes => ?_
  dsimp only
  by_cases hlimit : bytes +
      ((value.display floats).utf8ByteSize + if newline then 1 else 0) > limits.maxOutputBytes
  · rw [if_pos hlimit]
    exact Runs.fail _
  rw [if_neg hlimit]
  have hkept : ∀ machine : Machine F, At limits may d k machine ∧ machine.outputBytes = bytes →
      At limits may d k (
        if stderr then
          { machine with stderr :=
              machine.stderr ++ (value.display floats ++ if newline then "\n" else "") }
        else
          { machine with stdout :=
              machine.stdout ++ (value.display floats ++ if newline then "\n" else "") }) := by
    rintro machine ⟨h, rfl⟩
    have hsize : (if newline then "\n" else "").utf8ByteSize = if newline then 1 else 0 := by
      cases newline <;> rfl
    cases stderr with
    | true =>
      refine ⟨⟨?_, h.inside.depth, h.inside.steps⟩, h.frames, h.steps, h.counted⟩
      simp only [Machine.outputBytes, if_true, String.utf8ByteSize_append, hsize] at hlimit ⊢
      omega
    | false =>
      refine ⟨⟨?_, h.inside.depth, h.inside.steps⟩, h.frames, h.steps, h.counted⟩
      simp only [Machine.outputBytes, Bool.false_eq_true, if_false, String.utf8ByteSize_append,
        hsize] at hlimit ⊢
      omega
  exact Runs.update (fun machine h => (hkept machine h).inside) hkept

/-! ## Variables -/

theorem currentFrame_runs :
    Runs (Inside limits) may (At limits may d k) (currentFrame : Run F (Frame F))
      (fun _ machine => At limits may d k machine ∧ machine.frames ≠ []) := by
  unfold currentFrame
  refine (Runs.read Machine.frames).bind fun frames => ?_
  cases frames with
  | nil => exact Runs.fail _
  | cons frame frames =>
    refine (Runs.pure frame).weaken (fun _ h => h) ?_
    rintro _ machine ⟨h, hframes⟩
    rw [hframes]
    exact ⟨h, List.cons_ne_nil _ _⟩

theorem currentFrame_stays : Stays limits may d k (currentFrame : Run F (Frame F)) :=
  currentFrame_runs.weaken (fun _ h => h) fun _ _ h => h.1

theorem setCurrentFrame_at {machine : Machine F} (h : At limits may d k machine)
    (hframes : machine.frames ≠ []) (frame : Frame F) :
    At limits may d k (machine.setCurrentFrame frame) := by
  have hlength : (machine.setCurrentFrame frame).frames.length = machine.frames.length := by
    have hpos := List.length_pos_of_ne_nil hframes
    simp only [Machine.setCurrentFrame, List.length_cons, List.length_tail]
    omega
  refine ⟨⟨h.inside.output, ?_, h.inside.steps⟩, hlength.trans h.frames, h.steps, h.counted⟩
  rw [hlength]
  exact h.inside.depth

theorem putFrame_runs {f : Machine F → Frame F} :
    Runs (Inside limits) may (fun machine => At limits may d k machine ∧ machine.frames ≠ [])
      (.update fun machine => machine.setCurrentFrame (f machine) : Run F Unit)
      (fun _ => At limits may d k) :=
  Runs.update (fun _ h => (setCurrentFrame_at h.1 h.2 _).inside)
    fun _ h => setCurrentFrame_at h.1 h.2 _

theorem insertVariable_stays (name : String) (value : Value F) :
    Stays limits may d k (insertVariable name value) :=
  currentFrame_runs.bind fun _ => putFrame_runs

theorem getVariable_stays (name : String) :
    Stays limits may d k (getVariable name : Run F (Value F)) := by
  refine currentFrame_stays.bind fun frame => (Keeps.read _).bind fun globals => ?_
  cases (frame.lookup name).or (globals.lookup name) with
  | none => exact Keeps.fail _
  | some value => exact Keeps.pure value

theorem setVariable_stays (floats : Floats F) (name : String) (value : Value F) :
    Stays limits may d k (setVariable floats name value) :=
  currentFrame_runs.bind fun _ => Runs.bind (Keeps.lift _) fun _ =>
    Runs.bind (Keeps.lift _) fun _ => putFrame_runs

theorem getPath_stays (path : List String) :
    Stays limits may d k (getPath path : Run F (Value F)) := by
  cases path with
  | nil => exact Keeps.fail _
  | cons name fields => exact (getVariable_stays name).bind fun _ => Keeps.lift _

theorem setPath_stays (floats : Floats F) (name field : String) (value : Value F) :
    Stays limits may d k (setPath floats name field value) :=
  (getVariable_stays name).bind fun _ => (Keeps.lift _).bind fun _ => insertVariable_stays _ _

theorem bindPayload_stays (binding : Option String) (payload : Option (Value F)) :
    Stays limits may d k (bindPayload binding payload) := by
  unfold bindPayload
  split
  · exact insertVariable_stays _ _
  · exact Keeps.pure ()

theorem arrayVariable_stays (array : String) :
    Stays limits may d k (arrayVariable array : Run F (List (Value F))) := by
  refine (getVariable_stays array).bind fun value => ?_
  split
  · exact Keeps.pure _
  · exact Keeps.fail _

/-! ## Calls -/

/-- What the functions of a level keep, with any number of frames. -/
structure Level.Stays (limits : ExecutionLimits) (may : Prop) (k : ℕ) (level : Level Op F) : Prop where
  evalExpr : ∀ expression d, Interpreter.Stays limits may d k (level.evalExpr expression)
  execBlock : ∀ statements d, Interpreter.Stays limits may d k (level.execBlock statements)
  rounds : ∀ kind body d, Interpreter.Stays limits may d k (level.rounds kind body)

section

variable {level : Level Op F}

theorem evalArgument_stays (hlevel : level.Stays limits may k) (argument : ValueExpr Op F) :
    Stays limits may d k (evalArgument level argument) := by
  unfold evalArgument
  split
  · exact (getPath_stays _).bind fun _ => Keeps.pure _
  · exact (hlevel.evalExpr _ d).bind fun _ => Keeps.pure _

theorem bindArguments_stays (hlevel : level.Stays limits may k)
    (arguments : List (Parameter × ValueExpr Op F)) (frame : Frame F)
    (writebacks : List (String × List String)) :
    Stays limits may d k (bindArguments operations level arguments frame writebacks) := by
  induction arguments generalizing frame writebacks with
  | nil => exact Keeps.pure _
  | cons argument rest ih =>
    exact (evalArgument_stays hlevel _).bind fun _ => (Keeps.lift _).bind fun _ => ih _ _

theorem pushFrame_runs (hdepth : d < limits.maxCallDepth) (frame : Frame F) :
    Runs (Inside limits) may (At limits may d k) (pushFrame frame)
      (fun _ => At limits may (d + 1) k) := by
  have hpush : ∀ machine, At limits may d k machine →
      At limits may (d + 1) k { machine with frames := frame :: machine.frames } := by
    intro machine h
    have hlength : (frame :: machine.frames).length = d + 1 := by
      rw [List.length_cons, h.frames]
    refine ⟨⟨h.inside.output, ?_, h.inside.steps⟩, hlength, h.steps, h.counted⟩
    show (frame :: machine.frames).length ≤ limits.maxCallDepth
    rw [hlength]
    exact hdepth
  exact Runs.update (fun machine h => (hpush machine h).inside) hpush

theorem popFrame_runs :
    Runs (Inside limits) may (At limits may (d + 1) k) (popFrame : Run F (Frame F))
      (fun _ => At limits may d k) := by
  unfold popFrame
  refine (Runs.read Machine.frames).bind fun frames => ?_
  cases frames with
  | nil => exact Runs.fail _
  | cons frame frames =>
    have hpop : ∀ machine : Machine F, At limits may (d + 1) k machine ∧ machine.frames = frame :: frames →
        At limits may d k { machine with frames := machine.frames.tail } := by
      rintro machine ⟨h, -⟩
      have hlength : machine.frames.tail.length = d := by
        rw [List.length_tail, h.frames, Nat.add_sub_cancel]
      refine ⟨⟨h.inside.output, ?_, h.inside.steps⟩, hlength, h.steps, h.counted⟩
      show machine.frames.tail.length ≤ limits.maxCallDepth
      rw [List.length_tail]
      exact (Nat.sub_le _ _).trans h.inside.depth
    exact (Runs.update (fun machine h => (hpop machine h).inside) hpop).bind fun _ => Keeps.pure frame

theorem writeBack_stays (finalFrame : Frame F) (entry : String × List String) :
    Stays limits may d k (writeBack operations finalFrame entry) :=
  Runs.bind (Keeps.lift _) fun _ => currentFrame_runs.bind fun _ =>
    Runs.bind (Keeps.lift _) fun _ => putFrame_runs

theorem callDefined_stays (hlevel : level.Stays limits may k) (name : String)
    (args : List (ValueExpr Op F)) :
    Stays limits may d k (callDefined operations program limits level name args) := by
  unfold callDefined
  refine Runs.bind (Runs.read _) fun depth => ?_
  by_cases hdepth : depth ≥ limits.maxCallDepth
  · rw [if_pos hdepth]
    exact Runs.fail _
  rw [if_neg hdepth]
  cases hfunction : program.functions.find? (·.name = name) with
  | none => exact Runs.fail _
  | some function =>
    dsimp only
    by_cases harity : function.params.length ≠ args.length
    · rw [if_pos harity]
      exact Runs.fail _
    rw [if_neg harity]
    by_cases hd : depth = d
    · subst hd
      have hbegun : Stays limits may depth k
          (bindArguments operations level (function.params.zip args) [] []) :=
        bindArguments_stays hlevel _ _ _
      refine (hbegun.weaken (fun _ h => h.1) fun _ _ h => h).bind fun ⟨frame, writebacks⟩ => ?_
      refine (pushFrame_runs (Nat.lt_of_not_le hdepth) frame).bind fun _ => ?_
      refine Runs.bind (hlevel.execBlock function.body (depth + 1)) fun signal => ?_
      refine popFrame_runs.bind fun finalFrame => ?_
      have hend : Stays limits may depth k (do
          let result ← .lift (resultOf signal)
          .lift (result.coerce operations.floats function.returnType) : Run F (Value F)) :=
        (Keeps.lift _).bind fun _ => Keeps.lift _
      split_ifs
      · exact hend
      · exact (Keeps.each (writeBack_stays finalFrame) _).bind fun _ => hend
    · intro machine h
      exact absurd (h.2.symm.trans h.1.frames) hd

theorem callFunction_runs (hmax : may ∨ limits.maxSteps < u64Max)
    (hlevel : level.Stays limits may (k + 1)) (name : String) (args : List (ValueExpr Op F)) :
    Runs (Inside limits) may (At limits may d k)
      (callFunction operations program limits level name args)
      (fun _ => At limits may d (k + 1)) := by
  unfold callFunction
  refine (tick_runs hmax).bind fun _ => ?_
  cases builtinCall name with
  | none => exact callDefined_stays hlevel name args
  | some call =>
    cases call with
    | unavailable capability => exact Runs.fail _
    | result value => exact Runs.pure value
    | publicationMove =>
      cases args with
      | nil => exact Runs.fail _
      | cons argument rest => exact hlevel.evalExpr argument d

/-! ## Expressions -/

theorem evalOperands_stays (hlevel : level.Stays limits may k) (op : Op)
    (operands : List (ValueExpr Op F)) (values : List (Value F)) :
    Stays limits may d k (evalOperands operations level op operands values) := by
  induction operands generalizing values with
  | nil => exact Keeps.pure values
  | cons operand rest ih =>
    exact (hlevel.evalExpr operand d).bind fun _ => (Keeps.lift _).bind fun _ => ih _

theorem evalIndex_stays (hlevel : level.Stays limits may k) (index : ValueExpr Op F) :
    Stays limits may d k (evalIndex level index) :=
  (hlevel.evalExpr index d).bind fun _ => Keeps.lift _

theorem evalCondition_stays
    (heval : ∀ expression d, Stays limits may d k (level.evalExpr expression))
    (condition : ValueExpr Op F) : Stays limits may d k (evalCondition level condition) :=
  (heval condition d).bind fun _ => Keeps.lift _

theorem unwrapOr_stays (hlevel : level.Stays limits may k) (variant : String) (value : Value F)
    (default : ValueExpr Op F) : Stays limits may d k (unwrapOr level variant value default) := by
  unfold unwrapOr
  split
  · split_ifs
    · exact Keeps.pure _
    · exact hlevel.evalExpr default d
  · exact hlevel.evalExpr default d

/-- **Every expression but a call stays after the steps it begins with.** -/
theorem evalKind_stays (hmax : may ∨ limits.maxSteps < u64Max)
    (hlevel : level.Stays limits may k) (hnext : level.Stays limits may (k + 1))
    (expression : ValueExpr Op F) :
    Stays limits may d k (evalKind operations program limits level expression) := by
  cases expression with
  | literal value => exact Keeps.pure value
  | variableRef name => exact getVariable_stays name
  | call name args =>
    exact (callFunction_runs hmax hnext name args).weaken (fun _ h => h)
      fun _ _ h => h.mono (Nat.le_succ k)
  | mutBorrow path => exact getPath_stays path
  | logicalAnd left right =>
    refine (evalCondition_stays hlevel.evalExpr left).bind fun left => ?_
    split_ifs
    · exact (evalCondition_stays hlevel.evalExpr right).bind fun _ => Keeps.pure _
    · exact Keeps.pure _
  | logicalOr left right =>
    refine (evalCondition_stays hlevel.evalExpr left).bind fun left => ?_
    split_ifs
    · exact Keeps.pure _
    · exact (evalCondition_stays hlevel.evalExpr right).bind fun _ => Keeps.pure _
  | arrayPush array value =>
    exact (hlevel.evalExpr value d).bind fun _ => (arrayVariable_stays array).bind fun _ =>
      Keeps.pure _
  | arrayPop array =>
    exact (arrayVariable_stays array).bind fun _ => (insertVariable_stays _ _).bind fun _ =>
      Keeps.pure _
  | arraySet array index value =>
    refine (evalIndex_stays hlevel index).bind fun index => ?_
    refine (hlevel.evalExpr value d).bind fun value => ?_
    refine (arrayVariable_stays array).bind fun values => ?_
    cases values[index]? with
    | none => exact Keeps.fail _
    | some slot => exact (Keeps.lift _).bind fun _ => Keeps.pure _
  | arrayInsert array index value =>
    refine (evalIndex_stays hlevel index).bind fun index => ?_
    refine (hlevel.evalExpr value d).bind fun value => ?_
    refine (arrayVariable_stays array).bind fun values => ?_
    split_ifs
    · exact Keeps.fail _
    · exact Keeps.pure _
  | arrayRemove array index =>
    exact (evalIndex_stays hlevel index).bind fun _ => (arrayVariable_stays array).bind fun _ =>
      (insertVariable_stays _ _).bind fun _ => Keeps.pure _
  | arrayClear array => exact (arrayVariable_stays array).bind fun _ => Keeps.pure _
  | arrayIter array => exact hlevel.evalExpr array d
  | fieldAccess base field =>
    refine (getVariable_stays base).bind fun value => ?_
    split
    · exact Keeps.lift _
    · exact Keeps.fail _
  | matchArms value arms =>
    refine (hlevel.evalExpr value d).bind fun value => ?_
    split
    · split
      · exact Keeps.fail _
      · exact (bindPayload_stays _ _).bind fun _ => hlevel.evalExpr _ d
    · exact Keeps.fail _
  | conditional condition thenBranch elseBranch =>
    refine (evalCondition_stays hlevel.evalExpr condition).bind fun condition => ?_
    split_ifs
    · exact hlevel.evalExpr thenBranch d
    · exact hlevel.evalExpr elseBranch d
  | optionUnwrapOr option default =>
    exact (hlevel.evalExpr option d).bind fun _ => unwrapOr_stays hlevel _ _ _
  | resultUnwrapOr result default =>
    exact (hlevel.evalExpr result d).bind fun _ => unwrapOr_stays hlevel _ _ _
  | operation op operands =>
    exact (evalOperands_stays hlevel op operands []).bind fun _ => Keeps.lift _

/-! ## Statements -/

theorem runDeferred_stays (hmax : may ∨ limits.maxSteps < u64Max)
    (hnext : level.Stays limits may (k + 1)) (call : DeferredCall Op F) :
    Stays limits may d k (runDeferred operations limits level call) := by
  refine after_tick hmax ?_
  cases call with
  | expr expr => exact (hnext.evalExpr expr d).bind fun _ => Keeps.pure _
  | write stderr newline expr =>
    exact (hnext.evalExpr expr d).bind fun _ => writeOutput_stays _ _ _ _

/-- **A loop over values counts a step for each.** -/
theorem iterateValues_stays (hmax : may ∨ limits.maxSteps < u64Max)
    (hlevel : level.Stays limits may k) (binding : String) (body : List (Statement Op F))
    (values : List (Value F)) :
    Stays limits may d k (iterateValues limits level binding body values) := by
  induction values with
  | nil => exact Keeps.pure _
  | cons value values ih =>
    refine (tick_stays hmax).bind fun _ => (insertVariable_stays _ _).bind fun _ => ?_
    refine (hlevel.execBlock body d).bind fun signal => ?_
    cases signal with
    | next | continueSignal => exact ih
    | breakSignal | returnSignal value => exact Keeps.pure _

theorem execLoop_stays (hmax : may ∨ limits.maxSteps < u64Max) (hlevel : level.Stays limits may k)
    (kind : LoopKind Op F) (body : List (Statement Op F)) :
    Stays limits may d k (execLoop operations limits level kind body) := by
  cases kind with
  | infinite | whileLoop condition => exact hlevel.rounds _ body d
  | cStyle binding valueType initializer condition update =>
    exact (hlevel.evalExpr initializer d).bind fun _ => (Keeps.lift _).bind fun _ =>
      (insertVariable_stays _ _).bind fun _ => hlevel.rounds _ body d
  | iterate binding iterable =>
    refine (hlevel.evalExpr iterable d).bind fun value => ?_
    split
    · exact iterateValues_stays hmax hlevel _ _ _
    · exact Keeps.fail _

theorem updateLoop_stays (hlevel : level.Stays limits may k) (kind : LoopKind Op F) :
    Stays limits may d k (updateLoop operations level kind) := by
  unfold updateLoop
  split
  · exact (hlevel.evalExpr _ d).bind fun _ => (Keeps.lift _).bind fun _ => setVariable_stays _ _ _
  · exact Keeps.pure ()

/-- **A round counts a step, and the rounds after it begin with one step more.** -/
theorem execRound_stays (hmax : may ∨ limits.maxSteps < u64Max)
    (hnext : level.Stays limits may (k + 1)) (kind : LoopKind Op F) (body : List (Statement Op F)) :
    Stays limits may d k (execRound operations limits level kind body) := by
  have hagain : Stays limits may d (k + 1) (do
      updateLoop operations level kind
      level.rounds kind body) :=
    (updateLoop_stays hnext kind).bind fun _ => hnext.rounds kind body d
  refine after_tick hmax ((hnext.execBlock body d).bind fun signal => ?_)
  cases signal with
  | next | continueSignal => exact hagain
  | breakSignal | returnSignal value => exact Keeps.pure _

theorem execRounds_stays (hmax : may ∨ limits.maxSteps < u64Max)
    (heval : ∀ expression d, Stays limits may d k (level.evalExpr expression))
    (hnext : level.Stays limits may (k + 1)) (kind : LoopKind Op F) (body : List (Statement Op F)) :
    Stays limits may d k (execRounds operations limits level kind body) := by
  have hround (kind) : Stays limits may d k (execRound operations limits level kind body) := execRound_stays hmax hnext kind body
  cases kind with
  | infinite => exact hround _
  | whileLoop condition | cStyle binding valueType initializer condition update =>
    refine (evalCondition_stays (fun e => heval e) condition).bind fun condition => ?_
    split_ifs
    · exact hround _
    · exact Keeps.pure _
  | iterate binding iterable => exact Keeps.pure _

theorem execQuestionLet_stays (hlevel : level.Stays limits may k) (carrier : QuestionCarrier)
    (name : String) (valueType : ValueType) (resultExpr : ValueExpr Op F)
    (earlyExitActions : List (ValueExpr Op F)) :
    Stays limits may d k
      (execQuestionLet operations level carrier name valueType resultExpr earlyExitActions) := by
  refine (hlevel.evalExpr resultExpr d).bind fun value => ?_
  cases value with
  | enum enumName variant payload =>
    dsimp only
    split_ifs
    · exact (Keeps.collect (fun action => hlevel.evalExpr action d) _).bind fun _ => Keeps.pure _
    · exact Keeps.fail _
    · cases payload with
      | none => exact Keeps.fail _
      | some payload =>
        exact (Keeps.lift _).bind fun _ => (insertVariable_stays _ _).bind fun _ => Keeps.pure _
  | _ => exact Keeps.fail _

/-- **Every statement stays after the steps it begins with.** -/
theorem execStatement_stays (hmax : may ∨ limits.maxSteps < u64Max)
    (hlevel : level.Stays limits may k) (statement : Statement Op F) :
    Stays limits may d k (execStatement operations limits level statement) := by
  cases statement with
  | letStmt name valueType initializer =>
    exact (hlevel.evalExpr initializer d).bind fun _ => (Keeps.lift _).bind fun _ =>
      (insertVariable_stays _ _).bind fun _ => Keeps.pure _
  | letIf | letMatch | taskSelect | defer call => exact Keeps.fail _
  | questionLet carrier name valueType resultExpr earlyExitActions =>
    exact execQuestionLet_stays hlevel _ _ _ _ _
  | questionReturn resultExpr => exact (hlevel.evalExpr resultExpr d).bind fun _ => Keeps.pure _
  | letElse binding value variant elseBody =>
    refine (hlevel.evalExpr value d).bind fun value => ?_
    cases value with
    | enum name actual payload =>
      dsimp only
      split_ifs
      · cases payload with
        | none => exact Keeps.fail _
        | some payload => exact (insertVariable_stays _ _).bind fun _ => Keeps.pure _
      · exact hlevel.execBlock elseBody d
    | _ => exact Keeps.fail _
  | ifLet binding value variant body elseBody =>
    have helse : Stays limits may d k (execStatement.execElse level elseBody) := by
      cases elseBody with
      | none => exact Keeps.pure _
      | some elseBody => exact hlevel.execBlock elseBody d
    refine (hlevel.evalExpr value d).bind fun value => ?_
    cases value with
    | enum name actual payload =>
      dsimp only
      split_ifs
      · exact (bindPayload_stays _ _).bind fun _ => hlevel.execBlock body d
      · exact helse
    | _ => exact helse
  | ifStmt condition body elseBody =>
    refine (evalCondition_stays (fun e => hlevel.evalExpr e) condition).bind fun condition => ?_
    split_ifs
    · exact hlevel.execBlock body d
    · exact hlevel.execBlock elseBody d
  | assign name value =>
    exact (hlevel.evalExpr value d).bind fun _ => (setVariable_stays _ _ _).bind fun _ =>
      Keeps.pure _
  | assignField base field value =>
    exact (hlevel.evalExpr value d).bind fun _ => (setPath_stays _ _ _ _).bind fun _ => Keeps.pure _
  | arrayIndexAssign root indices value =>
    exact (Keeps.collect (evalIndex_stays hlevel) indices).bind fun _ =>
      (hlevel.evalExpr value d).bind fun _ => (getVariable_stays root).bind fun _ =>
      (Keeps.lift _).bind fun _ => (insertVariable_stays _ _).bind fun _ => Keeps.pure _
  | write stderr newline expr =>
    exact (hlevel.evalExpr expr d).bind fun _ => (writeOutput_stays _ _ _ _).bind fun _ =>
      Keeps.pure _
  | panic message => exact (hlevel.evalExpr message d).bind fun _ => Keeps.fail _
  | returnStmt value =>
    cases value with
    | none => exact Keeps.pure _
    | some value => exact (hlevel.evalExpr value d).bind fun _ => Keeps.pure _
  | expr expr => exact (hlevel.evalExpr expr d).bind fun _ => Keeps.pure _
  | matchStmt value arms =>
    refine (hlevel.evalExpr value d).bind fun value => ?_
    split
    · split
      · exact Keeps.fail _
      · exact (bindPayload_stays _ _).bind fun _ => hlevel.execBlock _ d
    · exact Keeps.fail _
  | loop kind body => exact execLoop_stays hmax hlevel kind body
  | breakStmt | continueStmt => exact Keeps.pure _

/-- **A block counts a step for every statement and for every call it deferred.** -/
theorem execStatements_stays (hmax : may ∨ limits.maxSteps < u64Max)
    (hnext : level.Stays limits may (k + 1)) (statements : List (Statement Op F))
    (deferred : List (DeferredCall Op F)) :
    Stays limits may d k (execStatements operations limits level statements deferred) := by
  have hdeferred : ∀ (calls : List (DeferredCall Op F)) (signal : Signal F), Stays limits may d k (do
        .each (runDeferred operations limits level) calls
        return signal) :=
    fun calls signal => (Keeps.each (runDeferred_stays hmax hnext) calls).bind fun _ => Keeps.pure _
  induction statements generalizing deferred with
  | nil => exact hdeferred _ _
  | cons statement rest ih =>
    unfold execStatements
    split
    · rename_i heq
      cases heq
    · rename_i heq
      cases heq
      exact (tick_stays hmax).bind fun _ => ih _
    rename_i heq
    cases heq
    -- The statement runs after its step; what follows it does not build on that step.
    have hstatement : Runs (Inside limits) may (At limits may d (k + 1))
        (execStatement operations limits level statement) (fun _ => At limits may d k) :=
      (execStatement_stays hmax hnext statement).weaken (fun _ h => h)
        fun _ _ h => h.mono (Nat.le_succ k)
    refine (tick_runs hmax).bind fun _ => hstatement.bind fun signal => ?_
    cases signal with
    | next => exact ih _
    | continueSignal | breakSignal | returnSignal value => exact hdeferred _ _

end

/-! ## Runs -/

/-- **As many levels as the steps that are left need are enough**: three for each. -/
theorem levels_stays (hmax : may ∨ limits.maxSteps < u64Max) (n : ℕ) :
    ∀ k, (may ∨ 3 * (limits.maxSteps + 1 - k) + 3 ≤ n →
        (∀ expression d,
          Stays limits may d k ((levels operations program limits n).evalExpr expression)) ∧
        ∀ statements d,
          Stays limits may d k ((levels operations program limits n).execBlock statements)) ∧
      (may ∨ 3 * (limits.maxSteps + 1 - k) + 4 ≤ n →
        ∀ kind body d, Stays limits may d k ((levels operations program limits n).rounds kind body)) := by
  induction n with
  | zero =>
    intro k
    constructor
    · rintro (hmay | hlevels)
      · exact ⟨fun _ _ => Runs.unfinished fun _ _ => hmay, fun _ _ => Runs.unfinished fun _ _ => hmay⟩
      · omega
    · rintro (hmay | hlevels)
      · exact fun _ _ _ => Runs.unfinished fun _ _ => hmay
      · omega
  | succ n ih =>
    have hlevel : ∀ k, may ∨ 3 * (limits.maxSteps + 1 - k) + 4 ≤ n →
        (levels operations program limits n).Stays limits may k := by
      intro k hlevels
      obtain ⟨heval, hblock⟩ := (ih k).1 (hlevels.imp_right fun h => by omega)
      exact ⟨heval, hblock, (ih k).2 hlevels⟩
    intro k
    by_cases hk : may ∨ k ≤ limits.maxSteps
    · have hnext : may ∨ 3 * (limits.maxSteps + 1 - k) + 3 ≤ n + 1 →
          (levels operations program limits n).Stays limits may (k + 1) ∧
          (levels operations program limits n).Stays limits may (k + 2) := by
        intro hlevels
        constructor
        · refine hlevel (k + 1) ?_
          rcases hk with hmay | hk
          · exact .inl hmay
          · exact hlevels.imp_right fun h => by omega
        · refine hlevel (k + 2) ?_
          rcases hk with hmay | hk
          · exact .inl hmay
          · exact hlevels.imp_right fun h => by omega
      constructor
      · intro hlevels
        obtain ⟨hone, htwo⟩ := hnext hlevels
        constructor
        · exact fun expression d => after_tick hmax (evalKind_stays hmax hone htwo expression)
        · exact fun statements d => execStatements_stays hmax hone statements []
      · intro hlevels kind body d
        have heval := ((ih k).1 (hlevels.imp_right fun h => by omega)).1
        exact execRounds_stays hmax heval (hnext (hlevels.imp_right fun h => by omega)).1 kind body
    · obtain ⟨hmay, hk⟩ := not_or.mp hk
      have hlt : limits.maxSteps < k := Nat.lt_of_not_le hk
      constructor
      · exact fun _ => ⟨fun _ _ => runs_of_lt hmay hlt, fun _ _ => runs_of_lt hmay hlt⟩
      · exact fun _ _ _ _ => runs_of_lt hmay hlt

theorem evalConstant_stays {level : Level Op F} (hlevel : level.Stays limits may k)
    (constant : Constant Op F) :
    Stays limits may d k (evalConstant operations level constant) := by
  have hglobal : ∀ (value : Value F) (machine : Machine F), At limits may d k machine → At limits may d k
        { machine with globals := insertEntry machine.globals constant.name value } :=
    fun _ _ h => ⟨⟨h.inside.output, h.inside.depth, h.inside.steps⟩, h.frames, h.steps, h.counted⟩
  exact (hlevel.evalExpr _ d).bind fun _ => (Keeps.lift _).bind fun value =>
    Keeps.update (fun machine h => (hglobal value machine h).inside) (hglobal value)

/-- As many levels as a run needs. -/
def enoughLevels (limits : ExecutionLimits) : ℕ := 3 * limits.maxSteps + 7

theorem runMain_stays (hmax : may ∨ limits.maxSteps < u64Max) (hn : may ∨ enoughLevels limits ≤ n) :
    Stays limits may 0 0 (runMain operations program limits n) := by
  unfold enoughLevels at hn
  have hlevel (k) : (levels operations program limits n).Stays limits may k := by
    obtain ⟨hvalues, hrounds⟩ := levels_stays hmax n k
    obtain ⟨heval, hblock⟩ := hvalues (hn.imp_right fun h => by omega)
    exact ⟨heval, hblock, hrounds (hn.imp_right fun h => by omega)⟩
  have hmain : Stays limits may 0 0 (callFunction operations program limits
      (levels operations program limits n) "main" []) :=
    (callFunction_runs hmax (hlevel 1) "main" []).weaken (fun _ h => h)
      fun _ _ h => h.mono (Nat.le_succ 0)
  refine (Keeps.each (evalConstant_stays (hlevel 0)) program.consts).bind fun _ => ?_
  refine hmain.bind fun value => ?_
  cases value with
  | void => exact Keeps.pure ()
  | _ => exact Keeps.fail _

theorem new_at : At limits may 0 0 (Machine.new : Machine F) := by
  refine ⟨⟨?_, Nat.zero_le _, Nat.zero_le _⟩, rfl, Nat.zero_le _, .inr (Nat.zero_le _)⟩
  exact Nat.zero_le _

/-- **A run stays inside its limits at every point, counts no more steps than it may when it comes to
its end, and does come to an end, with as many levels as its steps need, unless the limit is as much as
the counter can hold.** -/
theorem runMain_within_limits (operations : Operations Op F) (program : Program Op F)
    (limits : ExecutionLimits) :
    (∀ n, ∀ machine ∈ (runMain operations program limits n).visited .new, Inside limits machine) ∧
    (∀ n, (runMain operations program limits n).outcome .new = .done () →
      ((runMain operations program limits n).final .new).steps ≤ limits.maxSteps) ∧
    (limits.maxSteps < u64Max →
      (runMain operations program limits (enoughLevels limits)).outcome .new ≠ .unfinished ∧
      ∀ n, enoughLevels limits ≤ n →
        runMain operations program limits n .new =
          runMain operations program limits (enoughLevels limits) .new) := by
  have hsafe (n) : Stays limits True 0 0 (runMain operations program limits n) := runMain_stays (.inl trivial) (.inl trivial)
  refine ⟨fun n => (hsafe n .new new_at).1, ?_, ?_⟩
  · intro n hdone
    have hend := (hsafe n .new new_at).2
    rw [hdone] at hend
    exact hend.steps
  intro hmax
  have hends : (runMain operations program limits (enoughLevels limits)).outcome .new ≠
      .unfinished := by
    intro hunfinished
    have hstays : Stays limits False 0 0
        (runMain operations program limits (enoughLevels limits)) :=
      runMain_stays (.inr hmax) (.inr le_rfl)
    have hend := (hstays .new new_at).2
    rw [hunfinished] at hend
    exact hend
  exact ⟨hends, fun n hn => runMain_extends hn .new hends⟩

/-! ## A limit that is none -/

/-- No operations. -/
def noOperations : Operations Empty ℤ where
  floats := { display := toString, ofInt := id }
  check := nofun
  apply := nofun

/-- A `main` with a body. -/
def mainProgram (body : List (Statement Empty ℤ)) : Program Empty ℤ where
  consts := []
  functions := [{ name := "main", params := [], returnType := .void, body }]

/-- A program that writes a line in every round of an endless loop comes to its end. -/
theorem runMain_within_limits_sample :
    let program := mainProgram [.defer (.write false true (.literal (.string "bye"))),
      .loop .infinite [.write false true (.literal (.string "hi"))]]
    let limits : ExecutionLimits := { maxSteps := 20, maxOutputBytes := 64, maxCallDepth := 2 }
    (runMain noOperations program limits (enoughLevels limits)).outcome .new ≠ .unfinished :=
  ((runMain_within_limits noOperations _ _).2.2 (by decide)).1

/-- A program whose loop never ends. -/
def endlessProgram : Program Empty ℤ := mainProgram [.loop .infinite []]

/-- The greatest limit of steps. -/
def greatestLimits : ExecutionLimits where
  maxSteps := u64Max
  maxOutputBytes := 64
  maxCallDepth := 1

theorem tick_done (machine : Machine F) : (tick greatestLimits).outcome machine = .done () := by
  have hle : ¬ min (machine.steps + 1) u64Max > u64Max := Nat.not_lt.mpr (Nat.min_le_right _ _)
  have hcounted : (Traced.update fun machine : Machine F =>
      { machine with steps := min (machine.steps + 1) u64Max } :
        Run F Unit).outcome machine = .done () := rfl
  unfold tick
  rw [outcome_bind_of_done hcounted]
  rw [outcome_bind_of_done (rfl : (Traced.read Machine.steps).outcome _ = _)]
  show (if min (machine.steps + 1) u64Max > u64Max then _ else _ : Run F Unit).outcome _ = _
  rw [if_neg hle]
  rfl

theorem rounds_endless (operations : Operations Op F) (program : Program Op F) (n : ℕ)
    (machine : Machine F) :
    ((levels operations program greatestLimits n).rounds .infinite []).outcome machine =
      .unfinished := by
  induction n generalizing machine with
  | zero => rfl
  | succ n ih =>
    show (execRound operations greatestLimits (levels operations program greatestLimits n) .infinite
      []).outcome machine = .unfinished
    unfold execRound
    rw [outcome_bind_of_done (tick_done machine)]
    cases n with
    | zero => exact outcome_bind_of_unfinished rfl
    | succ n =>
      rw [outcome_bind_of_done (rfl : Traced.outcome _ _ = .done Signal.next)]
      exact ih _

theorem execBlock_endless (operations : Operations Op F) (program : Program Op F) (n : ℕ)
    (machine : Machine F) :
    ((levels operations program greatestLimits n).execBlock [.loop .infinite []]).outcome machine =
      .unfinished := by
  cases n with
  | zero => rfl
  | succ n =>
    show (execStatements operations greatestLimits (levels operations program greatestLimits n)
      [.loop .infinite []] []).outcome machine = .unfinished
    unfold execStatements
    rw [outcome_bind_of_done (tick_done machine)]
    exact outcome_bind_of_unfinished (rounds_endless operations program n _)

/-- **With the greatest limit of steps an endless loop never comes to its end.** -/
theorem runMain_endless : ¬ ∃ n,
    (runMain noOperations endlessProgram greatestLimits n).outcome .new ≠ .unfinished := by
  rintro ⟨n, hends⟩
  refine hends ?_
  have hname : (builtinCall "main" : Option (BuiltinCall ℤ)) = none :=
    Option.isNone_iff_eq_none.mp (by decide +kernel)
  have hcall : (callFunction noOperations endlessProgram greatestLimits
      (levels noOperations endlessProgram greatestLimits n) "main" []).outcome .new = .unfinished := by
    unfold callFunction
    rw [outcome_bind_of_done (tick_done _), hname]
    show (callDefined noOperations endlessProgram greatestLimits _ "main" []).outcome _ = .unfinished
    unfold callDefined
    rw [outcome_bind_of_done (rfl : Traced.outcome _ _ = .done 0)]
    rw [if_neg (by decide)]
    have hmain : endlessProgram.functions.find? (fun function => function.name = "main") =
        some { name := "main", params := [], returnType := .void, body := [.loop .infinite []] } := rfl
    rw [hmain]
    dsimp only
    rw [if_neg (by decide)]
    rw [outcome_bind_of_done (rfl : Traced.outcome _ _ = .done ([], []))]
    rw [outcome_bind_of_done (rfl : Traced.outcome _ _ = .done ())]
    exact outcome_bind_of_unfinished (execBlock_endless _ _ n _)
  unfold runMain
  rw [outcome_bind_of_done (rfl : Traced.outcome _ _ = .done ())]
  exact outcome_bind_of_unfinished hcall

end Nomo.Interpreter
