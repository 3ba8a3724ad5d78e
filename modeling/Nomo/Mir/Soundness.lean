import Nomo.Mir.Statements

/-!
# The release optimiser is sound

A program run with the stores that `optimizeReleaseProgram` marked `checkedUnique` does exactly what
it does with every store `checkedCow`: the same values in every variable, the same heap, the same
output and the same calls, whatever the code outside the program does.  A monitored run, which stops
at a marked store of a shared buffer, never stops there.
-/

namespace Nomo.Mir

open Nomo.Ir Nomo.Lib Nomo.Lib.RefCount

/-! ## Calls -/

theorem frame_handles (frame : Frame) : frame.handles = handlesAll (frame.map Prod.snd) := by
  rw [handlesAll_eq, List.flatMap_map]
  rfl

/-- A call runs its body on a frame of its own: the references of the caller are carried along, and
the buffers of the caller's exclusive variables are set apart. -/
theorem invoke_rule {g₁ g₂ : Setting} {n : Nat} (f₁ f₂ : Function) (hparams : f₁.params = f₂.params)
    (hbody : ∀ S L, Agrees Bad (At (f₂.params.map Parameter.name) (fun _ => false) S L)
      (execBlock g₁ n f₁.body) (execBlock g₂ n f₂.body)
      fun signal => At (f₂.params.map Parameter.name) (fun _ => false) S (tally signal.handles + L))
    (vs : List Value) (Γ : List String) (X : String → Bool) (S : Nat → Prop) (L : Nat → Nat) :
    Keeps Γ X S (tally (handlesAll vs) + L) (invoke g₁ (n + 1) f₁ vs) (invoke g₂ (n + 1) f₂ vs)
      fun r => tally r.1.handles + (tally (handlesAll r.2) + L) := by
  -- The state in which the body starts.
  have hstart : ∀ m, At Γ X S (tally (handlesAll vs) + L) m → f₂.params.length = vs.length →
      At (f₂.params.map Parameter.name) (fun _ => false)
        (fun g => S g ∨ 0 < tally (m.frame.part X).handles g) (tally (m.frame.rest X).handles + L)
        { m with frame := (f₂.params.map Parameter.name).zip vs } := by
    intro m hm hlen
    have hlen' : (f₂.params.map Parameter.name).length ≤ vs.length := by
      rw [List.length_map]
      omega
    refine ⟨List.map_fst_zip hlen', hm.setApart.1.weaken fun g => ?_, fun e _ hx => by cases hx⟩
    have hhandles : Frame.handles ((f₂.params.map Parameter.name).zip vs) = handlesAll vs := by
      rw [frame_handles, List.map_snd_zip (by rw [List.length_map]; omega)]
    show tally (Frame.handles _) g + m.roots g + _ ≤ _
    rw [hhandles]
    simp only [Pi.add_apply]
    omega
  -- The state after the call, from the one in which the body ends.
  have hend : ∀ m m' signal, At Γ X S (tally (handlesAll vs) + L) m →
      At (f₂.params.map Parameter.name) (fun _ => false)
        (fun g => S g ∨ 0 < tally (m.frame.part X).handles g)
        (tally (Signal.handles signal) + (tally (m.frame.rest X).handles + L)) m' →
      At Γ X S (tally (Signal.handles signal) + (tally (handlesAll (m'.frame.map Prod.snd)) + L))
        { m' with frame := m.frame } := by
    intro m m' signal hm hm'
    refine hm.rejoin hm.names rfl (hm'.owned.weaken fun g => ?_)
    rw [← frame_handles]
    show tally (m.frame.rest X).handles g + m'.roots g + _ ≤ _
    simp only [Pi.add_apply]
    omega
  refine ⟨fun m hm => ?_, fun m e m' hm heq => ?_, fun m r m' hm heq => ?_⟩
  · unfold invoke
    rw [hparams]
    by_cases hlen : f₂.params.length = vs.length
    · rw [if_pos hlen, if_pos hlen, (hbody _ _).same _ (hstart m hm hlen)]
    · rw [if_neg hlen, if_neg hlen]
  · unfold invoke at heq
    by_cases hlen : f₂.params.length = vs.length
    · rw [if_pos hlen] at heq
      split at heq
      · cases heq
      · cases heq
      · cases heq
        simp
      · rename_i e' m₁ herr
        cases heq
        exact (hbody _ _).safe _ _ _ (hstart m hm hlen) herr
    · rw [if_neg hlen] at heq
      cases heq
      simp
  · unfold invoke at heq
    by_cases hlen : f₂.params.length = vs.length
    · rw [if_pos hlen] at heq
      split at heq
      · rename_i v m₁ hok
        cases heq
        exact hend m m₁ (.returned v) hm ((hbody _ _).post _ _ _ (hstart m hm hlen) hok)
      · rename_i m₁ hok
        cases heq
        exact hend m m₁ .next hm ((hbody _ _).post _ _ _ (hstart m hm hlen) hok)
      all_goals cases heq
    · rw [if_neg hlen] at heq
      cases heq

theorem body_spec {g₁ g₂ : Setting} {n : Nat} {F : Flow} (function : Function)
    (ih : BlockSpec g₁ g₂ n) (hcover : F.Covers function)
    (hc : bodyCheckedCow function.body = true) (S : Nat → Prop) (L : Nat → Nat) :
    Agrees Bad (At (function.params.map Parameter.name) (fun _ => false) S L)
      (execBlock g₁ n (annotateBody F.proven function.body 0).1) (execBlock g₂ n function.body)
      fun signal =>
        At (function.params.map Parameter.name) (fun _ => false) S (tally signal.handles + L) := by
  obtain ⟨b, state, hs, hnone, hbody⟩ := hcover.entry
  refine (ih F function.body 0 b bodyTargets (function.params.map Parameter.name) S L hcover.single
    hbody hc hcover.bound).weaken (fun m hm => ?_) fun _ _ hm => hm.counted
  refine ⟨state, ⟨hs, fun x hx header hh => Or.inr ⟨hnone x, fun hm => ?_⟩⟩, hm.anti fun x hx => ?_⟩
  · obtain ⟨p, hp, rfl⟩ := List.mem_map.1 hm
    have := hcover.single _ hx _ _ hh (hcover.parameter p hp)
    cases this
  · exact absurd ((F.exclusive_iff state x).1 hx).2 (hnone x)

theorem annotateBody_nil (body : List Statement) : ∀ next, (annotateBody [] body next).1 = body := by
  induction body using body_induct with
  | nil => exact fun _ => rfl
  | cons s rest hs hrest =>
    intro next
    have harms (arms : List MatchStatementArm) :
        (∀ body ∈ arms.map MatchStatementArm.body, body ∈ branches s) →
        ∀ next, (annotateArms [] arms next).1 = arms := by
      induction arms with
      | nil => exact fun _ _ => rfl
      | cons arm arms ih =>
        obtain ⟨variant, binding, body⟩ := arm
        intro hmem next
        simp only [annotateArms]
        rw [ih (fun b hb => hmem b (List.mem_cons_of_mem _ hb)),
          hs body (hmem body (by simp [MatchStatementArm.body]))]
    have hselect (arms : List TaskSelectArm) :
        (∀ body ∈ arms.map TaskSelectArm.body, body ∈ branches s) →
        ∀ next, (annotateSelectArms [] arms next).1 = arms := by
      induction arms with
      | nil => exact fun _ _ => rfl
      | cons arm arms ih =>
        obtain ⟨operation, binding, t, body⟩ := arm
        intro hmem next
        simp only [annotateSelectArms]
        rw [ih (fun b hb => hmem b (List.mem_cons_of_mem _ hb)),
          hs body (hmem body (by simp [TaskSelectArm.body]))]
    have hmode (s : Statement) : annotateMode false s = s := by
      cases s with
      | assign name value => cases value <;> rfl
      | _ => rfl
    have hchildren (next) : (annotateChildren [] s next).1 = s := by
      cases s with
      | letMatch name t value enumName arms =>
        simp only [annotateChildren, harms arms fun _ h => h]
      | matchOn value enumName arms => simp only [annotateChildren, harms arms fun _ h => h]
      | taskSelect arms => simp only [annotateChildren, hselect arms fun _ h => h]
      | letIf name t condition a b | ifThenElse condition a b =>
        simp only [annotateChildren, hs a (by simp [branches]), hs b (by simp [branches])]
      | ifLet binding t value variant a elseBody =>
        cases elseBody with
        | none => simp only [annotateChildren, hs a (by simp [branches])]
        | some b => simp only [annotateChildren, hs a (by simp [branches]), hs b (by simp [branches])]
      | letElse binding t value variant a =>
        simp only [annotateChildren, hs a (by simp [branches])]
      | loop kind a => simp only [annotateChildren, hs a (by simp [branches])]
      | _ => rfl
    rw [annotateBody_cons, hrest]
    simp only [annotateStatement, List.not_mem_nil, decide_false, hmode, hchildren]

/-! ## Programs -/

/-- What the optimiser makes of a function. -/
def optimized (function : Function) : Function := (optimizeFunction function).1

theorem optimized_body (function : Function) : ∃ F : Flow, F.Covers function ∧
    (optimized function).body = (annotateBody F.proven function.body 0).1 := by
  obtain ⟨hnodup, hbound, hsafe⟩ := eligible_bound function
  by_cases hsuspend : function.isSuspend = true
  · obtain ⟨F, -, hproven, hcover⟩ := function_covered function (eligibleFlatArrayBindings function)
      [] hnodup hbound hsafe (by simp)
    refine ⟨F, hcover, ?_⟩
    rw [hproven, annotateBody_nil]
    simp [optimized, optimizeFunction, hsuspend]
  · obtain ⟨F, -, hproven, hcover⟩ := function_covered function (eligibleFlatArrayBindings function)
      (proveUniqueDetaches (buildCfg function (eligibleFlatArrayBindings function))
        (eligibleFlatArrayBindings function)).2 hnodup hbound hsafe fun _ h => h
    refine ⟨F, hcover, ?_⟩
    rw [hproven]
    simp [optimized, optimizeFunction, hsuspend]

theorem optimized_params (function : Function) : (optimized function).params = function.params := by
  unfold optimized optimizeFunction
  split <;> rfl

theorem optimized_name (function : Function) : (optimized function).name = function.name := by
  unfold optimized optimizeFunction
  split <;> rfl

theorem optimizeReleaseProgram_related (host : Host) (monitor : Bool) (program : Program) :
    Related optimized ⟨host, monitor, (optimizeReleaseProgram program).1⟩
      ⟨host, false, resetMutationModes program⟩ where
  host := rfl
  unmonitored := rfl
  functions := by
    simp only [optimizeReleaseProgram, List.map_map]
    rfl
  name := optimized_name
  params := optimized_params

theorem simulation {g₁ g₂ : Setting} (hg : Related optimized g₁ g₂)
    (hc : g₂.program.checkedCow = true) (n : Nat) :
    (∀ k ≤ n, Evaluates g₁ g₂ k) ∧ Executes g₁ g₂ n ∧ InvokeSpec optimized g₁ g₂ n := by
  induction n with
  | zero =>
    refine ⟨fun k hk => ?_, Executes.zero g₁ g₂, fun _ _ _ _ _ _ _ => outOfFuel_spec⟩
    rw [Nat.le_zero.1 hk]
    exact Evaluates.zero g₁ g₂
  | succ n ih =>
    obtain ⟨hv, hx, hi⟩ := ih
    refine ⟨fun k hk => ?_, hx.succ hg hv, fun f hf vs Γ X S L => ?_⟩
    · rcases Nat.lt_or_eq_of_le hk with hk | rfl
      · exact hv k (Nat.le_of_lt_succ hk)
      · exact (hv n (Nat.le_refl n)).succ hg hi
    · obtain ⟨F, hcover, hbody⟩ := optimized_body f
      have hcf : bodyCheckedCow f.body = true := List.all_eq_true.1 hc f hf
      refine invoke_rule (optimized f) f (optimized_params f) (fun S L => ?_) vs Γ X S L
      rw [hbody]
      exact body_spec f hx.block hcover hcf S L

/-- Reference counts cover every reference there is: those of variables, of constants, of values
kept outside the program, and of the arguments of a call. -/
def Machine.Counted (m : Machine) (args : List Value) : Prop :=
  Owned Value.handles m.heap (fun _ => False)
    (tally m.frame.handles + m.roots + tally (handlesAll args))

/-- **Soundness of the release optimiser.** In every program whose stores all are `checkedCow`, as
the front end emits them, every call of every function does the same with the stores marked as it
does without, and no marked store is reached while its buffer is shared. -/
theorem optimizeReleaseProgram_sound (host : Host) (program : Program)
    (hcow : (resetMutationModes program).checkedCow = true) (function : Function)
    (hf : function ∈ (resetMutationModes program).functions) (fuel : Nat) (args : List Value)
    (m : Machine) (hm : Machine.Counted m args) :
    (∀ monitor, invoke ⟨host, monitor, (optimizeReleaseProgram program).1⟩ fuel
        (optimizeFunction function).1 args m
      = invoke ⟨host, false, resetMutationModes program⟩ fuel function args m) ∧
    ∀ m', invoke ⟨host, true, (optimizeReleaseProgram program).1⟩ fuel
      (optimizeFunction function).1 args m ≠ .error .sharedStore m' := by
  have hat : At m.frame.names (fun _ => false) (fun _ => False) (tally (handlesAll args) + 0) m :=
    ⟨rfl, hm.weaken fun g => by simp, fun _ _ hx => (Bool.false_ne_true hx).elim⟩
  have hspec (monitor) : _ :=
    (simulation (optimizeReleaseProgram_related host monitor program) hcow fuel).2.2 function hf args
      m.frame.names (fun _ => false) (fun _ => False) 0
  refine ⟨fun monitor => (hspec monitor).same m hat, fun m' heq => ?_⟩
  rw [show (optimizeFunction function).1 = optimized function from rfl, (hspec true).same m hat] at heq
  exact (hspec true).safe m _ m' hat heq rfl

/-- A function that stores to an array it has just built. -/
def freshStore (mode : ArrayMutationMode) : Function where
  package := "test"
  name := "main"
  isSuspend := false
  params := []
  body := [
    .letBind "values" (.array .i32) (.arrayLiteral [.literal (.int 1)] .i32),
    .arrayIndexAssign "values" [.literal (.int 0)] [.i32] (.literal (.int 7)) mode,
    .returnValue (some (.variable "values"))]

/-- Its store is marked. -/
example : (optimizeFunction (freshStore .checkedCow)).1 = freshStore .checkedUnique := by rfl

/-- A function that stores to an array after another variable has come to share it. -/
def aliasedStore : Function where
  package := "test"
  name := "main"
  isSuspend := false
  params := []
  body := [
    .letBind "values" (.array .i32) (.arrayLiteral [.literal (.int 1)] .i32),
    .letBind "snapshot" (.array .i32) (.variable "values"),
    .arrayIndexAssign "values" [.literal (.int 0)] [.i32] (.literal (.int 7)) .checkedCow]

/-- Its store is not. -/
example : (optimizeFunction aliasedStore).1 = aliasedStore := by rfl

/-- A host that panics when asked for anything. -/
def silentHost : Host where
  primitive _ _ _ _ := ⟨false, none⟩
  external _ _ _ _ := ⟨false, none⟩
  display _ _ := ""

/-- The machine before a program starts. -/
def emptyMachine : Machine := ⟨[], [], [], [], [], 0⟩

theorem emptyMachine_counted : Machine.Counted emptyMachine [] where
  counted g := by
    simp [Machine.roots, emptyMachine, handlesAll, Frame.handles, RefCount.Heap.held]
  apart := by simp

/-- The program whose one store is marked runs as it did before. -/
theorem optimizeReleaseProgram_sound_freshStore :
    (∀ monitor, invoke
        ⟨silentHost, monitor, (optimizeReleaseProgram ⟨[freshStore .checkedCow]⟩).1⟩ 10
        (optimizeFunction (freshStore .checkedCow)).1 [] emptyMachine
      = invoke ⟨silentHost, false, resetMutationModes ⟨[freshStore .checkedCow]⟩⟩ 10
        (freshStore .checkedCow) [] emptyMachine) ∧
    ∀ m', invoke ⟨silentHost, true, (optimizeReleaseProgram ⟨[freshStore .checkedCow]⟩).1⟩ 10
      (optimizeFunction (freshStore .checkedCow)).1 [] emptyMachine ≠ .error .sharedStore m' :=
  optimizeReleaseProgram_sound silentHost ⟨[freshStore .checkedCow]⟩ (by decide +kernel)
    (freshStore .checkedCow) (List.mem_cons_self ..) 10 [] emptyMachine emptyMachine_counted

end Nomo.Mir
