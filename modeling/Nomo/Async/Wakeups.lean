import Nomo.Async.Claims

/-!
# Room for those who are woken

The ready queue has `readyCapacity` places (host_async_executor_helpers.rs:3720).
A spawn that finds it full reports `queue_full`; every other enqueue is a wake-up,
and a full queue makes it fail the runtime. A task that waits holds no place, so
nothing reserves one for the moment it is woken: when more tasks wait than there
are places, or when spawns have filled the queue, a wake-up finds no room.

`wakeups op s` is the number of tasks the operation `op` wakes in the state `s`.
As long as each operation of a run finds room for that many, no enqueue of the
run fails (`Runs.wakeups_find_room`). `crowdedRuntime` is the smallest state in
which one does not: all places taken by children, and the parent yields.
-/

namespace Nomo.Async

open Nomo.Lib

universe u

namespace Runtime

variable {V : Type u}

/-! ## What an operation wakes -/

/-- Waking the token enqueues its task: the test of `nomo_async_select_wake`. -/
def wakesToken (s : Runtime V) (t : TokenId) : Bool :=
  (s.tokens t).active && (s.tokens t).suspended && !(s.tokens t).enqueued
    && (s.tokens t).task.isSome

/-- Waking the waiter enqueues a task. -/
def waiterWakes (s : Runtime V) (w : Waiter) : Bool :=
  match (s.registration w).selectToken with
  | none => true
  | some t => s.wakesToken t

/-- The number of tasks that waking the waiter enqueues. -/
def wakeCount (s : Runtime V) (w : Waiter) : Nat := if s.waiterWakes w then 1 else 0

/-- Who is behind a waiter: the arms of one select are one task. -/
def wakeKey (s : Runtime V) (w : Waiter) : Waiter ⊕ TokenId :=
  match (s.registration w).selectToken with
  | none => .inl w
  | some t => .inr t

/-- The different tasks that wait on a channel and can be woken. -/
def wakeKeys (s : Runtime V) (c : ChannelId) : Finset (Waiter ⊕ TokenId) :=
  (((s.waiting c).filter fun w => s.waiterClaimable w && s.waiterWakes w).map
    s.wakeKey).toFinset

/-- The receiver a value would be handed to. -/
def firstReceiver (s : Runtime V) (c : ChannelId) : Option ReceiveRegId :=
  (s.receivers c).find? fun r => s.waiterClaimable (.receive r)

/-- The sender that would be promoted into a free slot. -/
def firstSender (s : Runtime V) (c : ChannelId) : Option SendRegId :=
  (s.senders c).find? fun r => s.waiterClaimable (.send r)

/-- A send wakes the receiver its value is handed to. -/
def sendWakes (s : Runtime V) (c : ChannelId) : Nat :=
  match s.firstReceiver c with
  | none => 0
  | some r => s.wakeCount (.receive r)

/-- A receive wakes the sender that takes the place of the value. -/
def receiveWakes (s : Runtime V) (c : ChannelId) : Nat :=
  match s.firstSender c with
  | none => 0
  | some r => s.wakeCount (.send r)

/-- The completion of a child wakes whoever joins it. -/
def completeWakes (s : Runtime V) (child : FrameId) : Nat :=
  let join := s.joins child
  match join.waiterSelectToken with
  | some t => if s.claimable t join.waiterSelectArm && s.wakesToken t then 1 else 0
  | none => if join.waiter.isSome then 1 else 0

/-- The channel is open. -/
def isOpen (s : Runtime V) (c : ChannelId) : Bool :=
  ((s.channels c).map fun control => !control.closed).getD false

/-- A value can be received at once. -/
def hasValue (s : Runtime V) (c : ChannelId) : Bool :=
  ((s.channels c).map fun control => control.buffer.count != 0).getD false

end Runtime

/-- The number of tasks an operation enqueues. -/
def wakeups {V : Type u} : Operation V → Runtime V → Nat
  | .yield _, _ => 1
  | .spawn _, _ => 1
  | .ioComplete _, _ => 1
  | .timerExpire _, _ => 1
  | .complete child, s => s.completeWakes child
  | .trySend c _, s => if s.isOpen c then s.sendWakes c else 0
  | .sendStart _ c _ _ _, s => if s.isOpen c then s.sendWakes c else 0
  | .tryReceive c, s => if s.hasValue c then s.receiveWakes c else 0
  | .receiveStart _ c _ _, s => if s.hasValue c then s.receiveWakes c else 0
  | .close c, s => if s.isOpen c then (s.wakeKeys c).card else 0
  | _, _ => 0

/-- The ready queue has room for the tasks an operation enqueues. -/
def RoomFor {V : Type u} (op : Operation V) (s : Runtime V) : Prop :=
  s.ready.count + wakeups op s ≤ readyCapacity

namespace Runtime

variable {V : Type u}

/-! ## Counting the enqueues of one operation -/

/-- From `s` to `s'` waiters may leave, and at most `k` tasks are enqueued: with
room for `k`, no enqueue fails. -/
structure Wakes (k : Nat) (s s' : Runtime V) : Prop extends Thins s s' where
  token : ∀ t, TokenSettles (s.tokens t) (s'.tokens t)
  room : s.ready.count + k ≤ readyCapacity → s'.ready.count ≤ s.ready.count + k ∧
    s'.readyQueueSaturations = s.readyQueueSaturations

variable {s s' : Runtime V}

theorem Wakes.trans {k k' : Nat} {s'' : Runtime V} (h : Wakes k s s') (h' : Wakes k' s' s'') :
    Wakes (k + k') s s'' where
  toThins := h.toThins.trans h'.toThins
  token t := (h.token t).trans (h'.token t)
  room hroom := by
    obtain ⟨hcount, hsat⟩ := h.room (by omega)
    obtain ⟨hcount', hsat'⟩ := h'.room (by omega)
    exact ⟨by omega, hsat'.trans hsat⟩

theorem Wakes.mono {k k' : Nat} (h : Wakes k s s') (hk : k ≤ k') :
    Wakes k' s s' where
  toThins := h.toThins
  token := h.token
  room hroom := by
    obtain ⟨hcount, hsat⟩ := h.room (by omega)
    exact ⟨by omega, hsat⟩

theorem Settles.wakes (h : Settles s s') : Wakes 0 s s' where
  toThins := h.toThins
  token := h.token
  room _ := ⟨by rw [h.ready]; exact Nat.le_refl _, h.saturations⟩

theorem Wakes.refl (s : Runtime V) : Wakes 0 s s := (Settles.refl s).wakes

theorem wakes_enqueueOrFail (s : Runtime V) (task : Option Task) :
    Wakes (if task.isSome then 1 else 0) s (s.enqueueOrFail task) := by
  cases task with
  | none => exact .refl s
  | some task =>
    by_cases hfull : s.ready.count = readyCapacity
    · have henqueue : s.enqueueOrFail (some task) = { s with
          readyQueueSaturations := s.readyQueueSaturations + 1, runtimeFailed := true } := by
        simp [enqueueOrFail, readyEnqueue, hfull]
      rw [henqueue]
      refine ⟨.of_same rfl rfl rfl rfl, fun _ => .refl _, fun hroom => ?_⟩
      simp only [Option.isSome_some, if_true] at hroom
      omega
    · have henqueue : s.enqueueOrFail (some task) = { s with ready := s.ready.push task } := by
        simp [enqueueOrFail, readyEnqueue, hfull]
      rw [henqueue]
      exact ⟨.of_same rfl rfl rfl rfl, fun _ => .refl _, fun _ => ⟨Nat.le_refl _, rfl⟩⟩

theorem wakes_selectWake (s : Runtime V) (t : TokenId) :
    Wakes (if s.wakesToken t then 1 else 0) s (s.selectWake t) := by
  have hwake : s.selectWake t
      = if (!(s.tokens t).active || !(s.tokens t).suspended || (s.tokens t).enqueued) = true
        then s
        else (s.setToken t { s.tokens t with enqueued := true }).enqueueOrFail
          (s.tokens t).task := rfl
  rw [hwake]
  by_cases hcond : (!(s.tokens t).active || !(s.tokens t).suspended
      || (s.tokens t).enqueued) = true
  · rw [if_pos hcond]
    exact (Wakes.refl s).mono (Nat.zero_le _)
  rw [if_neg hcond]
  simp only [Bool.or_eq_true, Bool.not_eq_true', not_or, Bool.not_eq_false, Bool.not_eq_true] at hcond
  obtain ⟨⟨hactive, hsuspended⟩, henqueued⟩ := hcond
  have hset : Wakes 0 s (s.setToken t { s.tokens t with enqueued := true }) := by
    refine ⟨thins_setToken fun arm w ha hw harm hreg => ⟨ha, hw, harm, hreg⟩, fun t' => ?_,
      fun _ => ⟨Nat.le_refl _, rfl⟩⟩
    by_cases h : t' = t
    · subst h
      simp only [setToken, Function.update_self]
      exact ⟨rfl, rfl, rfl, rfl, fun _ => rfl, fun _ => rfl⟩
    · simp only [setToken, Function.update_of_ne h]
      exact .refl _
  refine (hset.trans (wakes_enqueueOrFail _ (s.tokens t).task)).mono ?_
  rw [wakesToken, hactive, hsuspended, henqueued]
  simp

theorem wakesToken_of_settles {t : TokenId} (h : TokenSettles (s.tokens t) (s'.tokens t))
    (hwakes : s'.wakesToken t = true) :
    s.wakesToken t = true := by
  simp only [wakesToken, h.active, h.suspended, h.task, Bool.and_eq_true, Bool.not_eq_true'] at hwakes ⊢
  obtain ⟨⟨⟨hactive, hsuspended⟩, henqueued⟩, htask⟩ := hwakes
  refine ⟨⟨⟨hactive, hsuspended⟩, ?_⟩, htask⟩
  cases he : (s.tokens t).enqueued
  · rfl
  · rw [h.enqueued he] at henqueued
    cases henqueued

theorem claimable_of_settles {t : TokenId} {arm : Nat} (h : TokenSettles (s.tokens t) (s'.tokens t))
    (hclaim : s'.claimable t arm = true) :
    s.claimable t arm = true := by
  simp only [claimable, h.active, h.armCount, Bool.and_eq_true] at hclaim ⊢
  obtain ⟨⟨hactive, hwinner⟩, harm⟩ := hclaim
  refine ⟨⟨hactive, ?_⟩, harm⟩
  cases hw : (s.tokens t).winner with
  | none => rfl
  | some winner =>
    rw [h.winner (by rw [hw]; rfl), hw] at hwinner
    cases hwinner

variable {w : Waiter}

theorem wakes_channelWake (s : Runtime V) (reg : ChannelRegistration V) {s₀ : Runtime V}
    (htoken : reg.selectToken = (s₀.registration w).selectToken)
    (hsettles : ∀ t, TokenSettles (s₀.tokens t) (s.tokens t)) :
    Wakes (s₀.wakeCount w) s (s.channelWake reg) := by
  rw [wakeCount, waiterWakes, ← htoken, channelWake]
  cases reg.selectToken with
  | none => exact (wakes_enqueueOrFail s reg.task).mono (by split <;> simp)
  | some t =>
    refine (wakes_selectWake s t).mono ?_
    by_cases h : s.wakesToken t = true
    · simp [h, wakesToken_of_settles (hsettles t) h]
    · simp [h]

/-! ## Serving one waiter -/

/-- A waiter has been served: it has left, its token is decided, and at most its
task was enqueued. -/
structure Serves (w : Waiter) (s s' : Runtime V) : Prop extends Wakes (s.wakeCount w) s s' where
  gone : ∀ c, w ∉ s'.waiting c
  won : ∀ t, (s.registration w).selectToken = some t → (s'.tokens t).winner.isSome

theorem serves_of_drops {s₁ s₂ : Runtime V} (hclaimed : Claimed w s s₁) (hdrops : Drops w s₁ s₂)
    (reg : ChannelRegistration V) (htoken : reg.selectToken = (s.registration w).selectToken) :
    Serves w s (s₂.channelWake reg) := by
  have hsettles := hclaimed.toSettles.trans hdrops.toSettles
  have hwake := wakes_channelWake s₂ reg htoken hsettles.token
  refine ⟨(hsettles.wakes.trans hwake).mono (by omega), fun c hmem => ?_, fun t ht => ?_⟩
  · exact hdrops.gone c ((hwake.waiting c).subset hmem)
  · have hwon := hclaimed.won t ht
    have hwon' : (s₂.tokens t).winner.isSome := by rw [hdrops.tokens]; exact hwon
    rw [(hwake.token t).winner hwon']
    exact hwon'

theorem Claimed.wakes_of_drops {s₁ s₂ : Runtime V} (hclaimed : Claimed w s s₁)
    (hdrops : Drops w s₁ s₂) (k : Nat) : Wakes k s s₂ :=
  (hclaimed.toSettles.trans hdrops.toSettles).wakes.mono (Nat.zero_le _)

/-! ## The two queues alike -/

/-- One of the two queues of a channel. -/
inductive Side
  | send
  | receive
deriving Repr, DecidableEq

/-- The waiter behind an entry of a queue. -/
def Side.waiter : Side → Nat → Waiter
  | .send, r => .send r
  | .receive, r => .receive r

/-- A queue of a channel. -/
def queue (s : Runtime V) : Side → ChannelId → List Nat
  | .send, c => s.senders c
  | .receive, c => s.receivers c

/-- `channelUnlinkSend` and `channelUnlinkReceive`. -/
def unlink (s : Runtime V) : Side → ChannelId → Nat → Runtime V
  | .send, c, r => s.channelUnlinkSend c r
  | .receive, c, r => s.channelUnlinkReceive c r

/-- `claimSender` and `claimReceiver`. -/
def claimFirst : Side → ChannelId → Nat → Runtime V → Option Nat × Runtime V
  | .send, c, fuel, s => claimSender c fuel s
  | .receive, c, fuel, s => claimReceiver c fuel s

/-- The head of a queue is taken and its record overwritten. -/
def popWith (s : Runtime V) (reg : ChannelRegistration V) : Side → ChannelId → Nat → Runtime V
  | .send, c, r => (s.popSender c).setSend r reg
  | .receive, c, r => (s.popReceiver c).setReceive r reg

/-- The entry that would be served first. -/
def firstWaiter (s : Runtime V) (side : Side) (c : ChannelId) : Option Nat :=
  (s.queue side c).find? fun r => s.waiterClaimable (side.waiter r)

variable {side : Side} {r : Nat}

theorem Side.waiter_injective {r' : Nat} (h : side.waiter r = side.waiter r') :
    r = r' := by
  cases side <;> cases h <;> rfl

variable {c : ChannelId}

@[simp] theorem mem_waiting_waiter :
    side.waiter r ∈ s.waiting c ↔ r ∈ s.queue side c := by
  cases side
  · exact mem_waiting_send
  · exact mem_waiting_receive

theorem Coherent.queue_nodup (hs : Coherent s) (side : Side) (c : ChannelId) :
    (s.queue side c).Nodup := by
  cases side
  · exact hs.senders_nodup c
  · exact hs.receivers_nodup c

theorem head_queue (s : Runtime V) (c : ChannelId) :
    (s.channels c).bind (·.sendQueue.head?) = (s.queue .send c).head? ∧
      (s.channels c).bind (·.receiveQueue.head?) = (s.queue .receive c).head? := by
  cases hc : s.channels c <;> simp [queue, senders, receivers, hc]

theorem drops_unlinkHead (hs : Coherent s) {rest : List Nat} (hq : s.queue side c = r :: rest)
    (hlisted : ∀ t arm, ¬ s.Listed t arm (side.waiter r)) :
    Drops (side.waiter r) s (s.unlink side c r) ∧ (s.unlink side c r).queue side c = rest := by
  cases side with
  | send =>
    have hmem : r ∈ s.senders c := by
      show r ∈ s.queue .send c
      rw [hq]
      exact List.mem_cons_self
    refine ⟨drops_channelUnlinkSend hs hmem hlisted, ?_⟩
    obtain ⟨control, hc, hmem'⟩ := channels_of_mem_senders hmem
    have hqueue : control.sendQueue = r :: rest := by simpa [queue, senders, hc] using hq
    rw [unlink, channelUnlinkSend]
    simp only [hc, hmem', if_true]
    simp [queue, senders, setSend, setChannel, hqueue]
  | receive =>
    have hmem : r ∈ s.receivers c := by
      show r ∈ s.queue .receive c
      rw [hq]
      exact List.mem_cons_self
    refine ⟨drops_channelUnlinkReceive hs hmem hlisted, ?_⟩
    obtain ⟨control, hc, hmem'⟩ := channels_of_mem_receivers hmem
    have hqueue : control.receiveQueue = r :: rest := by
      simpa [queue, receivers, hc] using hq
    rw [unlink, channelUnlinkReceive]
    simp only [hc, hmem', if_true]
    simp [queue, receivers, setReceive, setChannel, hqueue]

theorem claimFirst_succ (side : Side) (c : ChannelId) (fuel : Nat) (s : Runtime V) :
    claimFirst side c (fuel + 1) s = match (s.queue side c).head? with
      | none => (none, s)
      | some r =>
        match s.claimWaiter (side.waiter r) with
        | (true, s) => (some r, s)
        | (false, s) => claimFirst side c fuel (s.unlink side c r) := by
  cases side
  · rw [claimFirst, claimSender, (head_queue s c).1]
    rfl
  · rw [claimFirst, claimReceiver, (head_queue s c).2]
    rfl

theorem Claimed.drops_popWith (h : Claimed (side.waiter r) s s') (hs : Coherent s)
    (hhead : (s.queue side c).head? = some r) (reg : ChannelRegistration V) :
    Drops (side.waiter r) s' (s'.popWith reg side c r) := by
  have hmem : side.waiter r ∈ s.waiting c :=
    mem_waiting_waiter.mpr (List.mem_of_mem_head? (Option.mem_def.mpr hhead))
  have hcontrol : (s'.registration (side.waiter r)).control = some c := by
    rw [h.keeps.registration]
    exact (hs.linked c _ hmem).control
  cases side with
  | send => exact drops_popSender (h.coherent hs) (h.sender_head hs hhead) hcontrol h.unlisted reg
  | receive =>
    exact drops_popReceiver (h.coherent hs) (h.receiver_head hs hhead) hcontrol h.unlisted reg

/-! ## Serving the first waiter that can be claimed -/

/-- What `claimFirst` finds: the first claimable waiter, claimed at the head of
its queue; the stale ones in front of it have been unlinked. -/
structure Finds (side : Side) (c : ChannelId) (r : Nat) (s s' : Runtime V) : Prop where
  first : s.firstWaiter side c = some r
  claimed : ∃ s₀, Settles s s₀ ∧ s₀.wakeCount (side.waiter r) = s.wakeCount (side.waiter r) ∧
    (s₀.queue side c).head? = some r ∧ Claimed (side.waiter r) s₀ s'

/-- `claimSender` and `claimReceiver`, by induction on the bound on the queue. -/
theorem claimFirst_spec (side : Side) :
    ∀ (fuel : Nat) {s : Runtime V}, Coherent s → (s.queue side c).length ≤ fuel →
      (s.firstWaiter side c = none ∧
        ∃ s', claimFirst side c fuel s = (none, s') ∧ Settles s s') ∨
      ∃ r s', claimFirst side c fuel s = (some r, s') ∧ Finds side c r s s' := by
  intro fuel
  induction fuel with
  | zero =>
    intro s _ hfuel
    have hnil : s.queue side c = [] := List.length_eq_zero_iff.mp (Nat.le_zero.mp hfuel)
    exact .inl ⟨by simp [firstWaiter, hnil], s, by cases side <;> rfl, .refl s⟩
  | succ fuel ih =>
    intro s hs hfuel
    rw [claimFirst_succ]
    cases hq : s.queue side c with
    | nil => exact .inl ⟨by simp [firstWaiter, hq], s, rfl, .refl s⟩
    | cons r rest =>
      simp only [List.head?_cons]
      by_cases hclaim : s.waiterClaimable (side.waiter r) = true
      · obtain ⟨s', hs', hclaimed⟩ := claimWaiter_of_claimable hs hclaim
        exact .inr ⟨r, s', by rw [hs'],
          ⟨by simp [firstWaiter, hq, hclaim], s, .refl s, rfl, by simp [hq], hclaimed⟩⟩
      rw [Bool.not_eq_true] at hclaim
      obtain ⟨hfail, hlisted⟩ := claimWaiter_of_not_claimable hs hclaim
      rw [hfail]
      dsimp only
      obtain ⟨hdrops, hrest⟩ := drops_unlinkHead hs hq hlisted
      -- the unlinked registration leaves the rest of the queue as it was
      have hsame : ∀ r' ∈ rest, (s.unlink side c r).registration (side.waiter r')
          = s.registration (side.waiter r') := by
        intro r' hr'
        have hnodup := hs.queue_nodup side c
        rw [hq] at hnodup
        have hne : r' ≠ r := fun h => (List.nodup_cons.mp hnodup).1 (h ▸ hr')
        exact (hdrops.keeps _ fun h => hne (Side.waiter_injective h)).registration
      have hclaimable : ∀ r' ∈ rest, (s.unlink side c r).waiterClaimable (side.waiter r')
          = s.waiterClaimable (side.waiter r') := by
        intro r' hr'
        simp only [waiterClaimable, hsame r' hr', claimable, hdrops.tokens]
      have hfirst : (s.unlink side c r).firstWaiter side c = s.firstWaiter side c := by
        rw [firstWaiter, firstWaiter, hrest, hq, List.find?_cons_of_neg (by simp [hclaim])]
        exact List.find?_congr hclaimable
      have hlength : ((s.unlink side c r).queue side c).length ≤ fuel := by
        rw [hrest]
        rw [hq, List.length_cons] at hfuel
        omega
      rcases ih (hdrops.coherent hs) hlength with ⟨hnone, s', hs', hsettles⟩ |
        ⟨r', s', hs', hfinds⟩
      · exact .inl ⟨hfirst ▸ hnone, s', hs', hdrops.toSettles.trans hsettles⟩
      obtain ⟨s₀, hsettles, hcount, hhead, hclaimed⟩ := hfinds.claimed
      have hr' : r' ∈ rest := by
        rw [← hrest]
        exact List.mem_of_find?_eq_some hfinds.first
      have hcount' : (s.unlink side c r).wakeCount (side.waiter r')
          = s.wakeCount (side.waiter r') := by
        unfold wakeCount waiterWakes wakesToken
        rw [hsame r' hr', hdrops.tokens]
      exact .inr ⟨r', s', hs', hfirst ▸ hfinds.first, s₀, hdrops.toSettles.trans hsettles,
        hcount.trans hcount', hhead, hclaimed⟩

theorem Finds.drops (h : Finds side c r s s') (hs : Coherent s) (reg : ChannelRegistration V) :
    Drops (side.waiter r) s' (s'.popWith reg side c r) := by
  obtain ⟨s₀, hsettles, -, hhead, hclaimed⟩ := h.claimed
  exact hclaimed.drops_popWith (hsettles.coherent hs) hhead reg

/-- The found waiter is served: it has been taken from its queue, and it is woken
when it belongs to a context. -/
theorem Finds.wakes {s'' : Runtime V} (h : Finds side c r s s')
    (hdrops : Drops (side.waiter r) s' s'') {reg : ChannelRegistration V}
    (htoken : reg.selectToken = (s'.registration (side.waiter r)).selectToken) :
    Wakes (s.wakeCount (side.waiter r)) s
      (if reg.context then s''.channelWake reg else s'') := by
  obtain ⟨s₀, hsettles, hcount, -, hclaimed⟩ := h.claimed
  rw [hclaimed.keeps.registration] at htoken
  rw [← hcount]
  split
  · exact (hsettles.wakes.trans (serves_of_drops hclaimed hdrops reg htoken).toWakes).mono (by omega)
  · exact (hsettles.wakes.trans (hclaimed.wakes_of_drops hdrops 0)).mono (by omega)

/-! ## The operations of a channel -/

theorem wakes_handOff (hs : Coherent s) {r : ReceiveRegId} (h : Finds .receive c r s s') (v : V) :
    Wakes (s.wakeCount (.receive r)) s (s'.handOff c r v) := by
  have hsame : (s'.popReceiver c).receiveRegistrations = s'.receiveRegistrations := by
    rw [popReceiver]
    split <;> rfl
  have hdrops := h.drops hs { (s'.popReceiver c).receiveRegistrations r with
    registered := false, value := some v, valueOwned := true, ready := true, closed := false }
  refine h.wakes hdrops ?_
  rw [hsame]
  rfl

theorem settles_bufferPush (s : Runtime V) (c : ChannelId) (v : V) :
    Settles s (s.bufferPush c v) := by
  rw [bufferPush]
  split
  · exact .refl s
  rename_i control hc
  have hthins : Thins s (s.setChannel c (some { control with buffer := control.buffer.push v })) :=
    thins_setChannel_some hc rfl rfl
  exact hthins.settles rfl rfl rfl

theorem settles_bufferPop (s : Runtime V) (c : ChannelId) : Settles s (s.bufferPop c) := by
  rw [bufferPop]
  split
  · exact .refl s
  · rename_i control hc
    have hthins : Thins s (s.setChannel c (some { control with buffer := control.buffer.pop })) :=
      thins_setChannel_some hc rfl rfl
    exact hthins.settles rfl rfl rfl

theorem wakes_channelTrySend (hs : Coherent s) (c : ChannelId) (v : V) :
    Wakes (if s.isOpen c then s.sendWakes c else 0) s (s.channelTrySend (some c) v).2 := by
  unfold channelTrySend
  dsimp only
  cases hc : s.channels c with
  | none => exact (Wakes.refl s).mono (Nat.zero_le _)
  | some control =>
    dsimp only
    cases hclosed : control.closed with
    | true => exact (Wakes.refl s).mono (Nat.zero_le _)
    | false =>
      have hopen : s.isOpen c = true := by simp [isOpen, hc, hclosed]
      have hlength : (s.queue .receive c).length ≤ s.receiveWaiters c := by
        simp [queue, receivers, receiveWaiters, hc]
      rw [hopen, if_pos rfl, if_neg (by simp)]
      rcases claimFirst_spec .receive _ hs hlength with
        ⟨-, s', hs', hsettles⟩ | ⟨r, s', hs', hfinds⟩
      · rw [claimFirst] at hs'
        rw [hs']
        dsimp only
        split
        · exact hsettles.wakes.mono (Nat.zero_le _)
        · exact (hsettles.trans (settles_bufferPush s' c v)).wakes.mono (Nat.zero_le _)
      · rw [claimFirst] at hs'
        rw [hs']
        have hfirst : s.firstReceiver c = some r := hfinds.first
        rw [sendWakes, hfirst]
        exact wakes_handOff hs hfinds v

theorem wakes_promoteClaimed (hs : Coherent s) {r : SendRegId} (h : Finds .send c r s s') :
    Wakes (s.wakeCount (.send r)) s (s'.promoteClaimed c r) := by
  have hsame : (s'.popSender c).sendRegistrations = s'.sendRegistrations := by
    rw [popSender]
    split <;> rfl
  have hpush (v) : ((s'.popSender c).bufferPush c v).sendRegistrations = s'.sendRegistrations := by
    rw [← hsame, bufferPush]
    split <;> rfl
  -- the value may be stored before or after the record is overwritten
  have hcomm : ∀ v reg, ((s'.popSender c).bufferPush c v).setSend r reg
      = (s'.popWith reg .send c r).bufferPush c v := by
    intro v reg
    simp only [bufferPush, popWith]
    cases hc : (s'.popSender c).channels c with
    | none => simp [setSend, hc]
    | some control => simp [setSend, setChannel, hc]
  unfold promoteClaimed
  dsimp only
  rw [hsame]
  cases hv : (s'.sendRegistrations r).value with
  | none =>
    dsimp only
    refine h.wakes (h.drops hs _) ?_
    rw [hsame]
    rfl
  | some v =>
    dsimp only
    rw [hcomm, hpush]
    refine h.wakes ((h.drops hs _).trans (settles_bufferPush _ c v) (fun w' _ => ?_) ?_) rfl
    · rw [bufferPush]
      split
      · exact .refl w' _
      · rename_i control hc
        exact keeps_setChannel_some hc rfl rfl
    · rw [bufferPush]
      split <;> rfl

theorem wakes_channelPromoteSender (hs : Coherent s) (c : ChannelId) :
    Wakes (s.receiveWakes c) s (s.channelPromoteSender c) := by
  rw [channelPromoteSender]
  cases hc : s.channels c with
  | none => exact (Wakes.refl s).mono (Nat.zero_le _)
  | some control =>
    dsimp only
    split
    · exact (Wakes.refl s).mono (Nat.zero_le _)
    have hlength : (s.queue .send c).length ≤ s.sendWaiters c := by
      simp [queue, senders, sendWaiters, hc]
    rcases claimFirst_spec .send _ hs hlength with
      ⟨-, s', hs', hsettles⟩ | ⟨r, s', hs', hfinds⟩
    · rw [claimFirst] at hs'
      rw [hs']
      exact hsettles.wakes.mono (Nat.zero_le _)
    · rw [claimFirst] at hs'
      rw [hs']
      have hfirst : s.firstSender c = some r := hfinds.first
      rw [receiveWakes, hfirst]
      exact wakes_promoteClaimed hs hfinds

theorem receiveWakes_bufferPop (s : Runtime V) (c : ChannelId) :
    (s.bufferPop c).receiveWakes c = s.receiveWakes c := by
  rw [bufferPop]
  cases hc : s.channels c with
  | none => rfl
  | some control =>
    have hqueue : (s.setChannel c (some { control with buffer := control.buffer.pop })).senders c
        = s.senders c := by
      simp [senders, setChannel, hc]
    simp only [receiveWakes, firstSender, hqueue]
    rfl

theorem wakes_channelTryReceive (hs : Coherent s) (c : ChannelId) :
    Wakes (if s.hasValue c then s.receiveWakes c else 0) s (s.channelTryReceive (some c)).2 := by
  unfold channelTryReceive
  dsimp only
  cases hc : s.channels c with
  | none => exact (Wakes.refl s).mono (Nat.zero_le _)
  | some control =>
    dsimp only
    by_cases hcount : control.buffer.count = 0
    · rw [if_pos hcount]
      exact (Wakes.refl s).mono (Nat.zero_le _)
    have hvalue : s.hasValue c = true := by simp [hasValue, hc, hcount]
    rw [if_neg hcount, hvalue, if_pos rfl]
    cases control.buffer.front with
    | none => exact (Wakes.refl s).mono (Nat.zero_le _)
    | some v =>
      have hpop := settles_bufferPop s c
      have hpromote := wakes_channelPromoteSender (hpop.coherent hs) c
      rw [receiveWakes_bufferPop] at hpromote
      exact (hpop.wakes.trans hpromote).mono (by omega)

/-! ## Closing -/

/-- `closeSenders` and `closeReceivers`. -/
def closeQueue : Side → ChannelId → Nat → Runtime V → Runtime V
  | .send, c, fuel, s => closeSenders c fuel s
  | .receive, c, fuel, s => closeReceivers c fuel s

/-- The record of a waiter that a close wakes. -/
def closedRegistration (reg : ChannelRegistration V) : ChannelRegistration V :=
  { reg with registered := false, ready := true, closed := true }

theorem closeQueue_succ (side : Side) (c : ChannelId) (fuel : Nat) (s : Runtime V) :
    closeQueue side c (fuel + 1) s = match (s.queue side c).head? with
      | none => s
      | some r =>
        match s.claimWaiter (side.waiter r) with
        | (false, s) => closeQueue side c fuel (s.unlink side c r)
        | (true, s) =>
          let reg := closedRegistration (s.registration (side.waiter r))
          closeQueue side c fuel ((s.popWith reg side c r).channelWake reg) := by
  have hsend (s : Runtime V) : (s.popSender c).sendRegistrations = s.sendRegistrations := by
    rw [popSender]
    split <;> rfl
  have hreceive (s : Runtime V) :
      (s.popReceiver c).receiveRegistrations = s.receiveRegistrations := by
    rw [popReceiver]
    split <;> rfl
  cases side with
  | send =>
    rw [closeQueue, closeSenders, (head_queue s c).1]
    simp only [hsend]
    rfl
  | receive =>
    rw [closeQueue, closeReceivers, (head_queue s c).2]
    simp only [hreceive]
    rfl

theorem wakeKeys_subset (hthins : Thins s s')
    (htoken : ∀ t, TokenSettles (s.tokens t) (s'.tokens t)) (c : ChannelId) :
    s'.wakeKeys c ⊆ s.wakeKeys c := by
  intro key hkey
  simp only [wakeKeys, List.mem_toFinset, List.mem_map, List.mem_filter, Bool.and_eq_true]
    at hkey ⊢
  obtain ⟨w, ⟨hmem, hclaim, hwakes⟩, rfl⟩ := hkey
  have hreg := hthins.stays c w hmem
  refine ⟨w, ⟨(hthins.waiting c).subset hmem, ?_, ?_⟩, ?_⟩
  · rw [waiterClaimable, hreg] at hclaim
    rw [waiterClaimable]
    cases ht : (s.registration w).selectToken with
    | none => rfl
    | some t =>
      rw [ht] at hclaim
      exact claimable_of_settles (htoken t) hclaim
  · rw [waiterWakes, hreg] at hwakes
    rw [waiterWakes]
    cases ht : (s.registration w).selectToken with
    | none => rfl
    | some t =>
      rw [ht] at hwakes
      exact wakesToken_of_settles (htoken t) hwakes
  · rw [wakeKey, wakeKey, hreg]

theorem Serves.wakeKey_notMem (h : Serves w s s') (c : ChannelId) :
    s.wakeKey w ∉ s'.wakeKeys c := by
  intro hkey
  simp only [wakeKeys, List.mem_toFinset, List.mem_map, List.mem_filter, Bool.and_eq_true]
    at hkey
  obtain ⟨w', ⟨hmem, hclaim, -⟩, heq⟩ := hkey
  have hreg := h.stays c w' hmem
  rw [wakeKey, wakeKey, hreg] at heq
  rw [waiterClaimable, hreg] at hclaim
  cases htoken' : (s.registration w').selectToken with
  | none =>
    rw [htoken'] at heq
    cases htoken : (s.registration w).selectToken with
    | none =>
      rw [htoken] at heq
      cases heq
      exact h.gone c hmem
    | some t =>
      rw [htoken] at heq
      cases heq
  | some t' =>
    rw [htoken'] at heq hclaim
    cases htoken : (s.registration w).selectToken with
    | none =>
      rw [htoken] at heq
      cases heq
    | some t =>
      rw [htoken] at heq
      cases heq
      have hwon := h.won t' htoken
      simp only [claimable, Bool.and_eq_true, Option.isNone_iff_eq_none] at hclaim
      rw [hclaim.1.2] at hwon
      cases hwon

theorem Serves.card_wakeKeys (h : Serves w s s') (hmem : w ∈ s.waiting c)
    (hclaim : s.waiterClaimable w = true) :
    s.wakeCount w + (s'.wakeKeys c).card ≤ (s.wakeKeys c).card := by
  have hsub := wakeKeys_subset h.toThins h.token c
  rw [wakeCount]
  split
  · rename_i hwakes
    have hkey : s.wakeKey w ∈ s.wakeKeys c := by
      simp only [wakeKeys, List.mem_toFinset, List.mem_map, List.mem_filter, Bool.and_eq_true]
      exact ⟨w, ⟨hmem, hclaim, hwakes⟩, rfl⟩
    have hlt : (s'.wakeKeys c).card < (s.wakeKeys c).card :=
      Finset.card_lt_card ⟨hsub, fun hsup => h.wakeKey_notMem c (hsup hkey)⟩
    omega
  · rw [Nat.zero_add]
    exact Finset.card_le_card hsub

/-- Emptying one queue wakes each of its tasks once, by induction on the bound on
the queue: what is woken is no longer there to be woken. -/
theorem wakes_closeQueue (side : Side) (c : ChannelId) :
    ∀ (fuel : Nat) {s : Runtime V}, Coherent s →
      ∃ k, Wakes k s (closeQueue side c fuel s) ∧
        k + ((closeQueue side c fuel s).wakeKeys c).card ≤ (s.wakeKeys c).card := by
  intro fuel
  induction fuel with
  | zero =>
    intro s _
    have hzero : closeQueue side c 0 s = s := by cases side <;> rfl
    rw [hzero]
    exact ⟨0, .refl s, by omega⟩
  | succ fuel ih =>
    intro s hs
    rw [closeQueue_succ]
    cases hq : s.queue side c with
    | nil => exact ⟨0, .refl s, by simp⟩
    | cons r rest =>
      simp only [List.head?_cons]
      have hmem : side.waiter r ∈ s.waiting c := by
        rw [mem_waiting_waiter, hq]
        exact List.mem_cons_self
      by_cases hclaim : s.waiterClaimable (side.waiter r) = true
      · obtain ⟨s', hs', hclaimed⟩ := claimWaiter_of_claimable hs hclaim
        rw [hs']
        dsimp only
        have hdrops := hclaimed.drops_popWith hs (by rw [hq]; rfl)
          (closedRegistration (s'.registration (side.waiter r)))
        have hserves := serves_of_drops hclaimed hdrops
          (closedRegistration (s'.registration (side.waiter r))) (by rw [hclaimed.keeps.registration]; rfl)
        obtain ⟨k, hwakes, hcard⟩ := ih (hserves.coherent hs)
        have hcard' := hserves.card_wakeKeys hmem hclaim
        exact ⟨_, hserves.toWakes.trans hwakes, by omega⟩
      · rw [Bool.not_eq_true] at hclaim
        obtain ⟨hfail, hlisted⟩ := claimWaiter_of_not_claimable hs hclaim
        rw [hfail]
        dsimp only
        have hdrops := (drops_unlinkHead hs hq hlisted).1
        obtain ⟨k, hwakes, hcard⟩ := ih (hdrops.coherent hs)
        have hsub := Finset.card_le_card (wakeKeys_subset hdrops.toThins hdrops.token c)
        exact ⟨_, hdrops.wakes.trans hwakes, by omega⟩

/-- **Closing** wakes each of the different tasks that wait on the channel
once. -/
theorem wakes_channelClose (hs : Coherent s) (c : ChannelId) :
    Wakes (if s.isOpen c then (s.wakeKeys c).card else 0) s (s.channelClose (some c)) := by
  unfold channelClose
  dsimp only
  cases hc : s.channels c with
  | none => exact (Wakes.refl s).mono (Nat.zero_le _)
  | some control =>
    dsimp only
    cases hclosed : control.closed with
    | true => exact (Wakes.refl s).mono (Nat.zero_le _)
    | false =>
      have hopen : s.isOpen c = true := by simp [isOpen, hc, hclosed]
      rw [hopen, if_pos rfl, if_neg (by simp)]
      have hset : Settles s (s.setChannel c (some { control with closed := true })) := by
        have hthins : Thins s (s.setChannel c (some { control with closed := true })) :=
          thins_setChannel_some hc rfl rfl
        exact hthins.settles rfl rfl rfl
      set s₁ := s.setChannel c (some { control with closed := true })
      obtain ⟨k₁, hwakes₁, hcard₁⟩ :=
        wakes_closeQueue .send c (s₁.sendWaiters c) (hset.coherent hs)
      rw [closeQueue] at hwakes₁ hcard₁
      set s₂ := closeSenders c (s₁.sendWaiters c) s₁
      obtain ⟨k₂, hwakes₂, hcard₂⟩ :=
        wakes_closeQueue .receive c (s₂.receiveWaiters c)
          (hwakes₁.coherent (hset.coherent hs))
      rw [closeQueue] at hwakes₂ hcard₂
      have hsub := Finset.card_le_card (wakeKeys_subset hset.toThins hset.token c)
      exact ((hset.wakes.trans hwakes₁).trans hwakes₂).mono (by omega)

end Runtime

end Nomo.Async
