import Nomo.Incremental.Invalidation

/-!
# Clients that share a cache

`nomo/src/incremental.rs:197–272`. A call of `get_or_compute` looks its key up under the lock,
computes without it and inserts the result under it again. So the steps of other clients fall between
those of a computation, and also the changes of inputs with their invalidations.

A computation reads inputs and asks for other queries, each with a call of its own; the calls that a
client has not finished are its frames. The invalidation of a changed input waits until it is its turn.
-/

namespace Nomo.Incremental

open Nomo.Lib
open Std (TreeMap TreeSet TransOrd LawfulEqOrd)

set_option linter.unusedSectionVars false

variable {Input Key Content Value Client : Type}

/-! ## Computations -/

/-- What is left of a computation. -/
inductive Computation (Input Key Content Value : Type)
  | done (value : Value)
  | read (input : Input) (next : Content → Computation Input Key Content Value)
  | ask (key : Key) (next : Value → Computation Input Key Content Value)

/-- What a computation was told: the content of an input, or the value of a query. -/
inductive Answer (Input Key Content Value : Type)
  | content (input : Input) (content : Content)
  | value (key : Key) (value : Value)

namespace Computation

/-- The dependencies that a computation can come to use. -/
inductive Uses : Computation Input Key Content Value → QueryDependency Input Key → Prop
  | read {input : Input} {next : Content → Computation Input Key Content Value} :
      Uses (.read input next) (.input input)
  | ask {key : Key} {next : Value → Computation Input Key Content Value} :
      Uses (.ask key next) (.query key)
  | afterRead {input : Input} {next : Content → Computation Input Key Content Value}
      {dependency : QueryDependency Input Key} (content : Content) :
      Uses (next content) dependency → Uses (.read input next) dependency
  | afterAsk {key : Key} {next : Value → Computation Input Key Content Value}
      {dependency : QueryDependency Input Key} (value : Value) :
      Uses (next value) dependency → Uses (.ask key next) dependency

/-- What is left of a computation after answers, the last of them first. -/
inductive After (computation : Computation Input Key Content Value) :
    List (Answer Input Key Content Value) → Computation Input Key Content Value → Prop
  | start : After computation [] computation
  | read {answers : List (Answer Input Key Content Value)} {input : Input}
      {next : Content → Computation Input Key Content Value} (content : Content) :
      After computation answers (.read input next) →
        After computation (.content input content :: answers) (next content)
  | ask {answers : List (Answer Input Key Content Value)} {key : Key}
      {next : Value → Computation Input Key Content Value} (value : Value) :
      After computation answers (.ask key next) →
        After computation (.value key value :: answers) (next value)

variable {computation rest : Computation Input Key Content Value}
  {answers : List (Answer Input Key Content Value)}

theorem After.uses (h : After computation answers rest) {dependency : QueryDependency Input Key}
    (huses : Uses rest dependency) : Uses computation dependency := by
  induction h with
  | start => exact huses
  | read content _ ih => exact ih (.afterRead content huses)
  | ask value _ ih => exact ih (.afterAsk value huses)

theorem After.uses_input (h : After computation answers rest) {input : Input} {content : Content}
    (hanswer : .content input content ∈ answers) : Uses computation (.input input) := by
  induction h with
  | start => cases hanswer
  | read content' hafter ih =>
    rcases List.mem_cons.mp hanswer with heq | hanswer
    · cases heq
      exact hafter.uses .read
    · exact ih hanswer
  | ask value hafter ih =>
    rcases List.mem_cons.mp hanswer with heq | hanswer
    · cases heq
    · exact ih hanswer

theorem After.uses_query (h : After computation answers rest) {key : Key} {value : Value}
    (hanswer : .value key value ∈ answers) : Uses computation (.query key) := by
  induction h with
  | start => cases hanswer
  | read content hafter ih =>
    rcases List.mem_cons.mp hanswer with heq | hanswer
    · cases heq
    · exact ih hanswer
  | ask value' hafter ih =>
    rcases List.mem_cons.mp hanswer with heq | hanswer
    · cases heq
      exact hafter.uses .ask
    · exact ih hanswer

end Computation

/-! ## Queries -/

/-- The computations of queries, and the dependencies that their callers attach: every file and every
upstream query that can affect a result (`incremental.rs:3–5`). -/
structure Queries (Input Key Content Value : Type) where
  compute : Key → Computation Input Key Content Value
  dependencies : Key → List (QueryDependency Input Key)
  declared : ∀ key dependency, (compute key).Uses dependency → dependency ∈ dependencies key

/-- A computation gives a value when the inputs stay as they are. -/
inductive Queries.Gives (queries : Queries Input Key Content Value) (inputs : Input → Content) :
    Computation Input Key Content Value → Value → Prop
  | done (value : Value) : Gives queries inputs (.done value) value
  | read {input : Input} {next : Content → Computation Input Key Content Value} {value : Value} :
      Gives queries inputs (next (inputs input)) value →
        Gives queries inputs (.read input next) value
  | ask {key : Key} {next : Value → Computation Input Key Content Value} {asked value : Value} :
      Gives queries inputs (queries.compute key) asked →
        Gives queries inputs (next asked) value → Gives queries inputs (.ask key next) value

/-- An answer is what the inputs give. -/
def Queries.Confirms (queries : Queries Input Key Content Value) (inputs : Input → Content) :
    Answer Input Key Content Value → Prop
  | .content input content => inputs input = content
  | .value key value => queries.Gives inputs (queries.compute key) value

theorem Queries.gives_of_after {queries : Queries Input Key Content Value} {inputs : Input → Content}
    {computation rest : Computation Input Key Content Value}
    {answers : List (Answer Input Key Content Value)} {value : Value}
    (h : computation.After answers rest)
    (hconfirms : ∀ answer ∈ answers, queries.Confirms inputs answer)
    (hgives : queries.Gives inputs rest value) : queries.Gives inputs computation value := by
  induction h with
  | start => exact hgives
  | read content _ ih =>
    obtain ⟨hcontent, hconfirms⟩ := List.forall_mem_cons.mp hconfirms
    refine ih hconfirms (.read ?_)
    rw [show inputs _ = content from hcontent]
    exact hgives
  | ask asked _ ih =>
    obtain ⟨hasked, hconfirms⟩ := List.forall_mem_cons.mp hconfirms
    exact ih hconfirms (.ask hasked hgives)

/-! ## Worlds and their steps -/

/-- A call of `get_or_compute` that missed: what its computation was told, and what is left of it. -/
structure Frame (Input Key Content Value : Type) where
  key : Key
  answers : List (Answer Input Key Content Value)
  rest : Computation Input Key Content Value

/-- The inputs, the changes of inputs whose invalidation waits, the cache, and the frames of the
clients, the innermost first. -/
structure World (Input Key Content Value Client : Type) [Ord Input] [Ord Key] where
  inputs : Input → Content
  waiting : Multiset Input
  cache : CacheState Input Key Value
  clients : Client → List (Frame Input Key Content Value)

/-- What happens next. -/
inductive Action (Input Key Content Client : Type)
  | call (client : Client) (key : Key)
  | proceed (client : Client)
  | change (input : Input) (content : Content)
  | invalidate (input : Input)
  | clear

/-- The value of a query reaches the computation that asked for it. -/
def Frame.receive (frame : Frame Input Key Content Value) (value : Value) :
    Frame Input Key Content Value :=
  match frame.rest with
  | .ask key next =>
    { frame with answers := .value key value :: frame.answers, rest := next value }
  | _ => frame

/-- The value of a query reaches the caller. -/
def receive (value : Value) :
    List (Frame Input Key Content Value) → List (Frame Input Key Content Value)
  | [] => []
  | frame :: frames => frame.receive value :: frames

namespace World

variable [Ord Input] [Ord Key] [TransOrd Input] [LawfulEqOrd Input] [TransOrd Key] [LawfulEqOrd Key]
  [DecidableEq Input] [DecidableEq Key] [DecidableEq Client]

/-- Before anything happened. -/
def start (inputs : Input → Content) : World Input Key Content Value Client where
  inputs
  waiting := 0
  cache := CacheState.init
  clients := fun _ => []

/-- The first phase of `get_or_compute`: a hit is received, a miss opens a frame. -/
def lookup (queries : Queries Input Key Content Value) (client : Client) (key : Key)
    (world : World Input Key Content Value Client) : World Input Key Content Value Client :=
  match CacheState.get key world.cache with
  | (some value, cache) => { world with
      cache
      clients := Function.update world.clients client (receive value (world.clients client)) }
  | (none, cache) => { world with
      cache
      clients := Function.update world.clients client
        ({ key, answers := [], rest := queries.compute key } :: world.clients client) }

/-- One step of a client: its innermost computation reads an input, asks for a query, or is done and
its value is inserted. -/
def proceed (queries : Queries Input Key Content Value) (client : Client)
    (world : World Input Key Content Value Client) : Option (World Input Key Content Value Client) :=
  match world.clients client with
  | [] => none
  | frame :: frames =>
    match frame.rest with
    | .read input next => some { world with
        clients := Function.update world.clients client
          ({ frame with
            answers := .content input (world.inputs input) :: frame.answers
            rest := next (world.inputs input) } :: frames) }
    | .ask key _ => some (world.lookup queries client key)
    | .done computed =>
      let (value, cache) := CacheState.insertComputed frame.key (queries.dependencies frame.key)
        computed world.cache
      some { world with
        cache
        clients := Function.update world.clients client (receive value frames) }

/-- One step. -/
def step (queries : Queries Input Key Content Value) (world : World Input Key Content Value Client) :
    Action Input Key Content Client → Option (World Input Key Content Value Client)
  | .call client key =>
    match world.clients client with
    | [] => some (world.lookup queries client key)
    | _ :: _ => none
  | .proceed client => world.proceed queries client
  | .change input content => some { world with
      inputs := Function.update world.inputs input content
      waiting := input ::ₘ world.waiting }
  | .invalidate input =>
    if input ∈ world.waiting then some { world with
      waiting := world.waiting.erase input
      cache := (CacheState.invalidateInput input world.cache).2 }
    else none
  | .clear => some { world with cache := (CacheState.clear world.cache).2 }

/-- Steps that are allowed lead to a world. -/
inductive Reachable (queries : Queries Input Key Content Value) (inputs : Input → Content)
    (allowed : World Input Key Content Value Client → Action Input Key Content Client → Prop) :
    World Input Key Content Value Client → Prop
  | start : Reachable queries inputs allowed (start inputs)
  | step {world world' : World Input Key Content Value Client}
      (action : Action Input Key Content Client) : Reachable queries inputs allowed world →
      allowed world action → world.step queries action = some world' →
        Reachable queries inputs allowed world'

/-- When no invalidation waits, every entry holds the value that its computation gives. -/
def Settled (queries : Queries Input Key Content Value)
    (world : World Input Key Content Value Client) : Prop :=
  world.waiting = 0 → ∀ key entry, world.cache.entries[key]? = some entry →
    queries.Gives world.inputs (queries.compute key) entry.value

/-! ## Computations that were overtaken -/

/-- The cache holds a value of a query. -/
def Holds (world : World Input Key Content Value Client) (key : Key) (value : Value) : Prop :=
  ∃ entry, world.cache.entries[key]? = some entry ∧ entry.value = value

/-- An answer was not overtaken by an invalidation: the input is as it was read, or the invalidation
of its change waits; the entry of the query is still there. -/
def Current (world : World Input Key Content Value Client) : Answer Input Key Content Value → Prop
  | .content input content => world.inputs input = content ∨ input ∈ world.waiting
  | .value key value => world.Holds key value

/-- No invalidation overtakes a computation whose value is inserted now. -/
def NotOvertaken (world : World Input Key Content Value Client) :
    Action Input Key Content Client → Prop
  | .proceed client => ∀ frame frames computed, world.clients client = frame :: frames →
      frame.rest = .done computed → world.cache.entries[frame.key]? = none →
        ∀ answer ∈ frame.answers, world.Current answer
  | _ => True

end World

end Nomo.Incremental
