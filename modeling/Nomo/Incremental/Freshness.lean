import Nomo.Incremental.Interleaving

/-!
# Entries are fresh unless a computation was overtaken

An entry is derived when its value came from answers that are all current, and the queries among them
are derived as well. Every step keeps all entries derived, except the insertion of a value whose
computation an invalidation overtook. Once no invalidation waits, derived values are those that the
computations give.
-/

namespace Nomo.Incremental

open Nomo.Lib
open Std (TreeMap TreeSet TransOrd LawfulEqOrd)

set_option linter.unusedSectionVars false

variable {Input Key Content Value Client : Type} [Ord Input] [Ord Key] [TransOrd Input]
  [LawfulEqOrd Input] [TransOrd Key] [LawfulEqOrd Key]

/-! ## The entries after an operation -/

namespace CacheState

variable {state : CacheState Input Key Value}

@[simp] theorem entries_get (key : Key) : (get key state).2.entries = state.entries := by
  unfold get
  split <;> rfl

/-- An entry that is there stays, and its value is returned; otherwise the entry is made. -/
theorem insertComputed_cases [DecidableEq Input] [DecidableEq Key]
    (state : CacheState Input Key Value) (key : Key)
    (dependencies : List (QueryDependency Input Key)) (computed : Value) :
    (∃ existing, state.entries[key]? = some existing ∧
      (insertComputed key dependencies computed state).1 = existing.value ∧
      (insertComputed key dependencies computed state).2.entries = state.entries) ∨
    (state.entries[key]? = none ∧
      (insertComputed key dependencies computed state).1 = computed ∧
      (insertComputed key dependencies computed state).2.entries =
        state.entries.insert key { value := computed, dependencies := dependencies.dedup }) := by
  unfold insertComputed
  cases hentry : state.entries[key]? with
  | some existing => exact .inl ⟨existing, rfl, rfl, rfl⟩
  | none =>
    refine .inr ⟨rfl, rfl, ?_⟩
    dsimp only
    rw [entries_foldl_addDependent]

end CacheState

namespace World

variable {queries : Queries Input Key Content Value} {world world' : World Input Key Content Value Client}

/-! ## Derived values -/

/-- A value came from current answers, and those of queries did so as well. -/
inductive Derived (queries : Queries Input Key Content Value)
    (world : World Input Key Content Value Client) : Key → Value → Prop
  | of_answers {key : Key} {value : Value} {answers : List (Answer Input Key Content Value)} :
      (queries.compute key).After answers (.done value) →
        (∀ answer ∈ answers, world.Current answer) →
          (∀ asked told, .value asked told ∈ answers → Derived queries world asked told) →
            Derived queries world key value

theorem Derived.mono (hcurrent : ∀ answer, world.Current answer → world'.Current answer) {key : Key}
    {value : Value} (h : Derived queries world key value) : Derived queries world' key value := by
  induction h with
  | of_answers hafter hanswers _ ih =>
    exact .of_answers hafter (fun answer hanswer => hcurrent answer (hanswers answer hanswer)) ih

theorem Derived.gives (hwaiting : world.waiting = 0) {key : Key} {value : Value}
    (h : Derived queries world key value) :
    queries.Gives world.inputs (queries.compute key) value := by
  induction h with
  | of_answers hafter hanswers _ ih =>
    refine Queries.gives_of_after hafter ?_ (.done _)
    rintro (⟨input, content⟩ | ⟨asked, told⟩) hanswer
    · rcases hanswers _ hanswer with hinput | hinput
      · exact hinput
      · rw [hwaiting] at hinput
        cases hinput
    · exact ih asked told hanswer

/-! ## The invariant -/

/-- The indexes are consistent, and every entry has its dependencies and a derived value. -/
structure CacheSound (queries : Queries Input Key Content Value)
    (world : World Input Key Content Value Client) : Prop where
  consistent : world.cache.Consistent
  dependencies : ∀ key entry, world.cache.entries[key]? = some entry →
    ∀ dependency ∈ queries.dependencies key, dependency ∈ entry.dependencies
  derived : ∀ key entry, world.cache.entries[key]? = some entry →
    Derived queries world key entry.value

/-- What is left of a computation is what its answers left. -/
def FramesSound (queries : Queries Input Key Content Value)
    (frames : List (Frame Input Key Content Value)) : Prop :=
  ∀ frame ∈ frames, (queries.compute frame.key).After frame.answers frame.rest

theorem CacheSound.depends (h : CacheSound queries world) {key : Key}
    {entry : CachedQuery Input Key Value} (hentry : world.cache.entries[key]? = some entry)
    {dependency : QueryDependency Input Key} (huses : (queries.compute key).Uses dependency) :
    world.cache.Depends key dependency :=
  ⟨entry, hentry, h.dependencies key entry hentry dependency (queries.declared key dependency huses)⟩

theorem FramesSound.receive {frames : List (Frame Input Key Content Value)}
    (h : FramesSound queries frames) (value : Value) :
    FramesSound queries (receive value frames) := by
  cases frames with
  | nil => exact h
  | cons frame frames =>
    obtain ⟨hframe, hframes⟩ := List.forall_mem_cons.mp h
    refine List.forall_mem_cons.mpr ⟨?_, hframes⟩
    unfold Frame.receive
    split
    case h_1 key next hrest =>
      rw [hrest] at hframe
      exact hframe.ask value
    case h_2 => exact hframe

/-! ## What each step keeps -/

theorem CacheSound.of_entries (h : CacheSound queries world)
    (hconsistent : world'.cache.Consistent) (hentries : world'.cache.entries = world.cache.entries)
    (hcurrent : ∀ answer, world.Current answer → world'.Current answer) :
    CacheSound queries world' := by
  constructor
  · exact hconsistent
  · rw [hentries]
    exact h.dependencies
  · rw [hentries]
    exact fun key entry hentry => (h.derived key entry hentry).mono hcurrent

theorem current_of_entries (hentries : world'.cache.entries = world.cache.entries)
    (hinputs : world'.inputs = world.inputs) (hwaiting : world'.waiting = world.waiting)
    (answer : Answer Input Key Content Value) (h : world.Current answer) : world'.Current answer := by
  cases answer with
  | content input content =>
    show world'.inputs input = content ∨ input ∈ world'.waiting
    rw [hinputs, hwaiting]
    exact h
  | value key value =>
    show ∃ entry, world'.cache.entries[key]? = some entry ∧ _
    rw [hentries]
    exact h

theorem current_change [DecidableEq Input] {input : Input} {content : Content}
    (answer : Answer Input Key Content Value) (h : world.Current answer) :
    Current { world with
      inputs := Function.update world.inputs input content
      waiting := input ::ₘ world.waiting } answer := by
  cases answer with
  | content other told =>
    show Function.update world.inputs input content other = told ∨ other ∈ input ::ₘ world.waiting
    by_cases hother : other = input
    · exact .inr (Multiset.mem_cons.mpr (.inl hother))
    · rw [Function.update_of_ne hother]
      exact h.imp_right Multiset.mem_cons_of_mem
  | value key value => exact h

theorem current_insert {cache : CacheState Input Key Value} {key : Key}
    {entry : CachedQuery Input Key Value} (hnone : world.cache.entries[key]? = none)
    (hentries : cache.entries = world.cache.entries.insert key entry)
    (answer : Answer Input Key Content Value) (h : world.Current answer) :
    Current { world with cache } answer := by
  cases answer with
  | content input content => exact h
  | value asked told =>
    obtain ⟨held, hheld, htold⟩ := h
    refine ⟨held, ?_, htold⟩
    show cache.entries[asked]? = some held
    rw [hentries, TreeMap.getElem?_insert, if_neg]
    · exact hheld
    · rw [Std.compare_eq_iff_eq]
      rintro rfl
      rw [hnone] at hheld
      cases hheld

theorem CacheSound.insertComputed [DecidableEq Input] [DecidableEq Key]
    (h : CacheSound queries world) {key : Key} {computed : Value}
    {answers : List (Answer Input Key Content Value)}
    (hafter : (queries.compute key).After answers (.done computed))
    (hcurrent : world.cache.entries[key]? = none → ∀ answer ∈ answers, world.Current answer) :
    CacheSound queries { world with
      cache := (CacheState.insertComputed key (queries.dependencies key) computed world.cache).2 } := by
  have hconsistent := h.consistent.insertComputed key (queries.dependencies key) computed
  obtain ⟨existing, -, -, hentries⟩ | ⟨hnone, -, hentries⟩ :=
    CacheState.insertComputed_cases world.cache key (queries.dependencies key) computed
  · exact h.of_entries hconsistent hentries (current_of_entries hentries rfl rfl)
  have hkeep := current_insert hnone hentries
  refine ⟨hconsistent, ?_, ?_⟩
  · intro k entry hentry dependency hdependency
    replace hentry := (congrArg (·[k]?) hentries).symm.trans hentry
    simp only [TreeMap.getElem?_insert] at hentry
    split_ifs at hentry with hk
    · cases hentry
      obtain rfl := Std.compare_eq_iff_eq.mp hk
      exact List.mem_dedup.mpr hdependency
    · exact h.dependencies k entry hentry dependency hdependency
  · intro k entry hentry
    replace hentry := (congrArg (·[k]?) hentries).symm.trans hentry
    simp only [TreeMap.getElem?_insert] at hentry
    split_ifs at hentry with hk
    · cases hentry
      obtain rfl := Std.compare_eq_iff_eq.mp hk
      refine .of_answers hafter (fun answer hanswer => hkeep answer (hcurrent hnone answer hanswer)) ?_
      intro asked told hanswer
      obtain ⟨held, hheld, rfl⟩ := hcurrent hnone _ hanswer
      exact (h.derived asked held hheld).mono hkeep
    · exact (h.derived k entry hentry).mono hkeep

theorem CacheSound.derived_invalidate [DecidableEq Input] (h : CacheSound queries world) (input : Input)
    {key : Key} {value : Value} (hderived : Derived queries world key value)
    (hheld : world.Holds key value) (hreaches : ¬ world.cache.Reaches key input) :
    Derived queries { world with
      waiting := world.waiting.erase input
      cache := (CacheState.invalidateInput input world.cache).2 } key value := by
  obtain ⟨-, hentries, -⟩ := h.consistent.invalidateInput input
  induction hderived with
  | @of_answers key value answers hafter hanswers _ ih =>
    obtain ⟨entry, hentry, -⟩ := hheld
    have hasked : ∀ asked told, .value asked told ∈ answers → ¬ world.cache.Reaches asked input :=
      fun asked told hanswer hreached =>
        hreaches (.through (h.depends hentry (hafter.uses_query hanswer)) hreached)
    refine .of_answers hafter ?_ ?_
    · rintro (⟨other, content⟩ | ⟨asked, told⟩) hanswer
      · have hother : other ≠ input := by
          rintro rfl
          exact hreaches (.direct (h.depends hentry (hafter.uses_input hanswer)))
        exact (hanswers _ hanswer).imp_right (Multiset.mem_erase_of_ne hother).mpr
      · obtain ⟨held, hheld, htold⟩ := hanswers _ hanswer
        exact ⟨held, (hentries asked held).mpr ⟨hheld, hasked asked told hanswer⟩, htold⟩
    · intro asked told hanswer
      exact ih asked told hanswer (hanswers _ hanswer) (hasked asked told hanswer)

theorem CacheSound.invalidate [DecidableEq Input] (h : CacheSound queries world) (input : Input) :
    CacheSound queries { world with
      waiting := world.waiting.erase input
      cache := (CacheState.invalidateInput input world.cache).2 } := by
  obtain ⟨hconsistent, hentries, -⟩ := h.consistent.invalidateInput input
  refine ⟨hconsistent, ?_, ?_⟩
  · intro key entry hentry
    exact h.dependencies key entry ((hentries key entry).mp hentry).1
  · intro key entry hentry
    obtain ⟨hbefore, hreaches⟩ := (hentries key entry).mp hentry
    exact h.derived_invalidate input (h.derived key entry hbefore) ⟨entry, hbefore, rfl⟩ hreaches

/-! ## Runs -/

variable [DecidableEq Input] [DecidableEq Key] [DecidableEq Client]

/-- The invariant of runs. -/
structure Sound (queries : Queries Input Key Content Value)
    (world : World Input Key Content Value Client) : Prop where
  cache : CacheSound queries world
  frames : ∀ client, FramesSound queries (world.clients client)

theorem sound_start (inputs : Input → Content) :
    Sound queries (start inputs : World Input Key Content Value Client) := by
  constructor
  · constructor
    · exact CacheState.consistent_init
    all_goals
      intro key entry hentry
      simp [start, CacheState.init] at hentry
  · rintro client frame hframe
    cases hframe

omit [DecidableEq Input] [DecidableEq Key] in
theorem framesSound_update (h : ∀ client, FramesSound queries (world.clients client)) {client : Client}
    {frames : List (Frame Input Key Content Value)} (hframes : FramesSound queries frames)
    (other : Client) :
    FramesSound queries (Function.update world.clients client frames other) := by
  by_cases hother : other = client
  · subst hother
    rw [Function.update_self]
    exact hframes
  · rw [Function.update_of_ne hother]
    exact h other

theorem step_invalidate {input : Input} (h : input ∈ world.waiting) :
    world.step queries (.invalidate input) = some { world with
      waiting := world.waiting.erase input
      cache := (CacheState.invalidateInput input world.cache).2 } :=
  if_pos h

theorem Sound.lookup (h : Sound queries world) (client : Client) (key : Key) :
    Sound queries (world.lookup queries client key) := by
  have hconsistent := h.cache.consistent.get key
  have hentries : (CacheState.get key world.cache).2.entries = world.cache.entries :=
    CacheState.entries_get key
  unfold World.lookup
  split
  case h_1 value cache hget =>
    rw [hget] at hconsistent hentries
    exact ⟨h.cache.of_entries hconsistent hentries (current_of_entries hentries rfl rfl),
      framesSound_update h.frames ((h.frames client).receive value)⟩
  case h_2 cache hget =>
    rw [hget] at hconsistent hentries
    refine ⟨h.cache.of_entries hconsistent hentries (current_of_entries hentries rfl rfl),
      framesSound_update h.frames ?_⟩
    exact List.forall_mem_cons.mpr ⟨.start, h.frames client⟩

theorem Sound.proceed (h : Sound queries world) {client : Client}
    (hallowed : world.NotOvertaken (.proceed client)) (hstep : world.proceed queries client = some world') :
    Sound queries world' := by
  have hclient := h.frames client
  unfold World.proceed at hstep
  split at hstep
  case h_1 => cases hstep
  case h_2 frame frames hframes =>
    rw [hframes] at hclient
    obtain ⟨hframe, hbelow⟩ := List.forall_mem_cons.mp hclient
    replace hbelow : FramesSound queries frames := hbelow
    split at hstep
    case h_1 input next hrest =>
      cases hstep
      rw [hrest] at hframe
      refine ⟨h.cache.of_entries h.cache.consistent rfl (current_of_entries rfl rfl rfl),
        framesSound_update h.frames ?_⟩
      exact List.forall_mem_cons.mpr ⟨hframe.read _, hbelow⟩
    case h_2 key next hrest =>
      cases hstep
      exact h.lookup client key
    case h_3 computed hrest =>
      cases hstep
      rw [hrest] at hframe
      have hcache := h.cache.insertComputed hframe (hallowed frame frames computed hframes hrest)
      exact ⟨hcache.of_entries hcache.consistent rfl (current_of_entries rfl rfl rfl),
        framesSound_update h.frames (hbelow.receive _)⟩

/-- **One step.** -/
theorem Sound.step (h : Sound queries world) {action : Action Input Key Content Client}
    (hallowed : world.NotOvertaken action) (hstep : world.step queries action = some world') :
    Sound queries world' := by
  cases action with
  | call client key =>
    unfold World.step at hstep
    dsimp only at hstep
    split at hstep
    · cases hstep
      exact h.lookup client key
    · cases hstep
  | proceed client => exact h.proceed hallowed hstep
  | change input content =>
    cases hstep
    exact ⟨h.cache.of_entries h.cache.consistent rfl current_change, h.frames⟩
  | invalidate input =>
    by_cases hwaits : input ∈ world.waiting
    · rw [step_invalidate hwaits] at hstep
      cases hstep
      exact ⟨h.cache.invalidate input, h.frames⟩
    · cases (if_neg hwaits).symm.trans hstep
  | clear =>
    cases hstep
    refine ⟨⟨CacheState.consistent_clear, ?_, ?_⟩, h.frames⟩
    all_goals
      intro key entry hentry
      simp [CacheState.clear] at hentry

/-- **No stale value survives an invalidation** in a run in which no invalidation overtakes a
computation whose value is inserted. -/
theorem settled_of_notOvertaken {inputs : Input → Content}
    (h : Reachable queries inputs NotOvertaken world) : world.Settled queries := by
  have hsound : Sound queries world := by
    induction h with
    | start => exact sound_start inputs
    | step action _ hallowed hstep ih => exact ih.step hallowed hstep
  exact fun hwaiting key entry hentry => (hsound.cache.derived key entry hentry).gives hwaiting

end World

/-! ## A computation that was overtaken -/

/-- One query, whose value is an input. -/
def copied : Queries String ℕ ℕ ℕ where
  compute := fun _ => .read "a" .done
  dependencies := fun _ => [.input "a"]
  declared := by
    rintro key dependency (_ | _ | ⟨content, ⟨⟩⟩ | _)
    exact List.mem_singleton.mpr rfl

namespace World

/-- The client looks its query up and computes. -/
def computed : World String ℕ ℕ ℕ Unit where
  inputs := fun _ => 0
  waiting := 0
  cache := (CacheState.get 0 CacheState.init).2
  clients := fun _ => [{ key := 0, answers := [.content "a" 0], rest := .done 0 }]

theorem reachable_computed {allowed : World String ℕ ℕ ℕ Unit → Action String ℕ ℕ Unit → Prop}
    (hcall : allowed (start fun _ => 0) (.call () 0))
    (hproceed : allowed ((start fun _ => 0).lookup copied () 0) (.proceed ())) :
    Reachable copied (fun _ => 0) allowed computed := by
  have hlookup : Reachable copied (fun _ => 0) allowed ((start fun _ => 0).lookup copied () 0) :=
    .step (.call () 0) .start hcall rfl
  refine hlookup.step (.proceed ()) hproceed (congrArg some ?_)
  refine congrArg (World.mk (fun _ => 0) 0 _) (funext fun client => ?_)
  cases client
  rfl

/-- The client inserts the value. -/
theorem inserted_settled :
    Settled copied { computed with
      cache := (CacheState.insertComputed 0 [.input "a"] 0 computed.cache).2
      clients := Function.update computed.clients () [] } := by
  refine settled_of_notOvertaken ((reachable_computed trivial ?_).step (.proceed ()) ?_ rfl)
  · rintro frame frames value hframes hrest -
    cases hframes
    cases hrest
  · rintro frame frames value hframes hrest - answer hanswer
    cases hframes
    rw [List.mem_singleton.mp hanswer]
    exact .inl rfl

/-- Before the client inserts, the input changes and its change is invalidated. -/
theorem overtaken_not_settled :
    ¬ ∀ world : World String ℕ ℕ ℕ Unit,
      Reachable copied (fun _ => 0) (fun _ _ => True) world → world.Settled copied := by
  intro h
  have hcomputed : Reachable copied (fun _ => 0) (fun _ _ => True) computed :=
    reachable_computed trivial trivial
  have hchanged := hcomputed.step (.change "a" 1) trivial rfl
  have hinvalidated := hchanged.step (.invalidate "a") trivial
    (step_invalidate (Multiset.mem_cons_self "a" computed.waiting))
  have hinserted := hinvalidated.step (.proceed ()) trivial rfl
  have hsettled := h _ hinserted (Multiset.erase_cons_head "a" 0)
  -- The cache was empty when the value came.
  have hconsistent : computed.cache.Consistent := CacheState.consistent_init.get 0
  obtain ⟨-, hentries, -⟩ := hconsistent.invalidateInput "a"
  obtain ⟨existing, hexisting, -, -⟩ | ⟨-, -, hinsert⟩ :=
    CacheState.insertComputed_cases (CacheState.invalidateInput "a" computed.cache).2 0
      (copied.dependencies 0) 0
  · have hbefore := ((hentries 0 existing).mp hexisting).1
    cases hbefore
  · have hstale := hsettled 0 { value := 0, dependencies := (copied.dependencies 0).dedup }
      ((congrArg (·[0]?) hinsert).trans TreeMap.getElem?_insert_self)
    cases hstale with
    | read hdone => cases hdone

end World

end Nomo.Incremental
