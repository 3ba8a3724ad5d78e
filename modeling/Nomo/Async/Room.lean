import Nomo.Async.Wakeups

/-!
# Runs in which every wake-up finds room

The operations keep the queues, the registrations and the tokens coherent
(`coherent_apply`), and with room for those it wakes an operation never finds the
ready queue full (`saturations_apply`). By induction over a run, a program whose
spawns are all admitted and whose wake-ups all have room never saturates the queue.

The admission test of a spawn counts the tasks that are queued now, not those that
wait and may have to be queued later; so admitted spawns alone do not give the
room. `crowdedHost` is a program whose spawns all succeed and whose first yield
ends the run.
-/

namespace Nomo.Async

open Nomo.Lib

universe u

namespace Runtime

variable {V : Type u} {s : Runtime V}

/-- What one step of a run does: coherence is kept, and with room for `k` tasks no
enqueue fails. -/
structure Steps (k : Nat) (s s' : Runtime V) : Prop where
  coherent : Coherent s'
  room : s.ready.count + k ≤ readyCapacity →
    s'.readyQueueSaturations = s.readyQueueSaturations

variable {s' : Runtime V}

theorem Wakes.steps {k : Nat} (h : Wakes k s s') (hs : Coherent s) :
    Steps k s s' :=
  ⟨h.coherent hs, fun hroom => (h.room hroom).2⟩

theorem Thins.steps (h : Thins s s') (hs : Coherent s)
    (hsat : s'.readyQueueSaturations = s.readyQueueSaturations) (k : Nat) : Steps k s s' :=
  ⟨h.coherent hs, fun _ => hsat⟩

/-! ## Entering a queue -/

/-- A control block with a waiter at the end of its queue. -/
def appendWaiter (control : ChannelControl V) : Waiter → ChannelControl V
  | .send r => { control with sendQueue := control.sendQueue ++ [r] }
  | .receive r => { control with receiveQueue := control.receiveQueue ++ [r] }

variable {w : Waiter}

theorem mem_waiting_appendWaiter {c c' : ChannelId} {control : ChannelControl V} {w' : Waiter}
    (hc : s.channels c = some control) :
    w' ∈ (s.setChannel c (some (appendWaiter control w))).waiting c' ↔
      w' ∈ s.waiting c' ∨ (c' = c ∧ w' = w) := by
  by_cases h : c' = c
  · subst h
    cases w <;> cases w' <;>
      simp [waiting, senders, receivers, setChannel, appendWaiter, hc]
  · simp [waiting, senders, receivers, setChannel, h]

/-- **Queueing** a registration that was not in use. -/
theorem coherent_appendWaiter (hs : Coherent s) {c : ChannelId} {control : ChannelControl V}
    (hc : s.channels c = some control) (hqueued : ∀ c, w ∉ s.waiting c) (hlinked : s.Linked c w) :
    Coherent (s.setChannel c (some (appendWaiter control w))) where
  nodup c' := by
    by_cases h : c' = c
    · subst h
      have hnodup := hs.nodup c'
      have hnot := hqueued c'
      cases w with
      | send r =>
        have hperm : ((s.setChannel c' (some (appendWaiter control (.send r)))).waiting c').Perm
            (.send r :: s.waiting c') := by
          simp only [waiting, senders, receivers, setChannel, appendWaiter, hc,
            Function.update_self, Option.map_some, Option.getD_some, List.map_append,
            List.map_cons, List.map_nil, List.append_assoc, List.singleton_append]
          exact List.perm_middle
        exact hperm.nodup_iff.mpr (List.nodup_cons.mpr ⟨hnot, hnodup⟩)
      | receive r =>
        have hperm : ((s.setChannel c' (some (appendWaiter control (.receive r)))).waiting
            c').Perm (.receive r :: s.waiting c') := by
          simp only [waiting, senders, receivers, setChannel, appendWaiter, hc,
            Function.update_self, Option.map_some, Option.getD_some, List.map_append,
            List.map_cons, List.map_nil, ← List.append_assoc]
          exact List.perm_append_singleton _ _
        exact hperm.nodup_iff.mpr (List.nodup_cons.mpr ⟨hnot, hnodup⟩)
    · have hsame : (s.setChannel c (some (appendWaiter control w))).waiting c'
          = s.waiting c' := by
        simp [waiting, senders, receivers, setChannel, h]
      rw [hsame]
      exact hs.nodup c'
  linked c' w' hw' := by
    have hsame : ∀ w'', (s.setChannel c (some (appendWaiter control w))).registration w''
        = s.registration w'' := fun w'' => by cases w'' <;> rfl
    have hlinked' : s.Linked c' w' := by
      rcases (mem_waiting_appendWaiter hc).mp hw' with hmem | ⟨rfl, rfl⟩
      · exact hs.linked c' w' hmem
      · exact hlinked
    exact ⟨hsame w' ▸ hlinked'.registered, hsame w' ▸ hlinked'.active,
      hsame w' ▸ hlinked'.control, hsame w' ▸ hlinked'.ready⟩
  listed t arm w' hw' := by
    have hlisted := hs.listed t arm w' hw'
    cases w' <;> exact hlisted

theorem thins_channelRetainHandle (s : Runtime V) (handle : Option ChannelId) :
    Thins s (s.channelRetainHandle handle) := by
  unfold channelRetainHandle
  split
  · exact .refl s
  · split
    · exact .refl s
    · rename_i control hc
      exact thins_setChannel_some hc rfl rfl

theorem coherent_retainPending (hs : Coherent s) (handle : Option ChannelId)
    (reason : PendingReason) :
    Coherent { s.channelRetainHandle handle with pendingReason := reason } ∧
      (s.channelRetainHandle handle).readyQueueSaturations = s.readyQueueSaturations := by
  have hpending : Thins (s.channelRetainHandle handle)
      { s.channelRetainHandle handle with pendingReason := reason } := .of_same rfl rfl rfl rfl
  refine ⟨((thins_channelRetainHandle s handle).trans hpending).coherent hs, ?_⟩
  unfold channelRetainHandle
  repeat' split
  all_goals rfl

/-- A send that has to wait, started on a registration that was not in use. -/
theorem coherent_sendSuspend (hs : Coherent s) {r : SendRegId}
    (hqueued : ∀ c, .send r ∉ s.waiting c) (hlisted : ∀ t arm, ¬ s.Listed t arm (.send r))
    (c : ChannelId) (v : V) (t : Option TokenId) (arm : Nat) :
    Coherent (s.sendSuspend r c v t arm) ∧
      (s.sendSuspend r c v t arm).readyQueueSaturations = s.readyQueueSaturations := by
  unfold sendSuspend
  dsimp only
  set reg : ChannelRegistration V := { control := some c, context := true, task := s.current, selectToken := t, selectArm := arm, value := some v, valueOwned := true, registered := true, active := true }
  have hset : Thins s (s.setSend r reg) := thins_setRegistration (w := .send r) hqueued hlisted
  have hreg : (s.setSend r reg).registration (.send r) = reg := by
    simp [registration, setSend]
  cases hc : (s.setSend r reg).channels c with
  | none =>
    exact coherent_retainPending (hset.coherent hs) (some c) .channel
  | some control =>
    dsimp only
    have hcoherent := coherent_appendWaiter (hset.coherent hs) hc (w := .send r)
      (fun c' hmem => hqueued c' ((hset.waiting c').subset hmem))
      ⟨by rw [hreg], by rw [hreg], by rw [hreg], by rw [hreg]⟩
    exact coherent_retainPending hcoherent (some c) .channel

variable {r : ReceiveRegId}

/-- A receive that has to wait, started on a registration that was not in use. -/
theorem coherent_receiveSuspend (hs : Coherent s) (hqueued : ∀ c, .receive r ∉ s.waiting c)
    (hlisted : ∀ t arm, ¬ s.Listed t arm (.receive r)) (c : ChannelId) (t : Option TokenId)
    (arm : Nat) :
    Coherent (s.receiveSuspend r c t arm) ∧
      (s.receiveSuspend r c t arm).readyQueueSaturations = s.readyQueueSaturations := by
  unfold receiveSuspend
  dsimp only
  set reg : ChannelRegistration V := { control := some c, context := true, task := s.current, selectToken := t, selectArm := arm, registered := true, active := true }
  have hset : Thins s (s.setReceive r reg) :=
    thins_setRegistration (w := .receive r) hqueued hlisted
  have hreg : (s.setReceive r reg).registration (.receive r) = reg := by
    simp [registration, setReceive]
  cases hc : (s.setReceive r reg).channels c with
  | none =>
    exact coherent_retainPending (hset.coherent hs) (some c) .channel
  | some control =>
    dsimp only
    have hcoherent := coherent_appendWaiter (hset.coherent hs) hc (w := .receive r)
      (fun c' hmem => hqueued c' ((hset.waiting c').subset hmem))
      ⟨by rw [hreg], by rw [hreg], by rw [hreg], by rw [hreg]⟩
    exact coherent_retainPending hcoherent (some c) .channel

/-! ## Leaving a wait -/

theorem Coherent.not_queued_of_ready (hs : Coherent s) (h : (s.registration w).ready = true)
    (c : ChannelId) : w ∉ s.waiting c := fun hw => by
  rw [(hs.linked c w hw).ready] at h
  cases h

theorem Coherent.not_listed_of_resume (hs : Coherent s)
    (h : Operation.ResumeLegal s (s.registration w)) (t : TokenId) (arm : Nat) :
    ¬ s.Listed t arm w := fun hw => by
  have hwon := h t (hs.listed t arm w hw).2.1
  rw [hw.2.1] at hwon
  cases hwon

theorem Coherent.not_listed_of_none (hs : Coherent s) (h : (s.registration w).selectToken = none)
    (t : TokenId) (arm : Nat) :
    ¬ s.Listed t arm w := fun hw => by
  rw [(hs.listed t arm w hw).2.1] at h
  cases h

theorem drops_finishSend {r : SendRegId} (h : Drops (.send r) s s')
    (hlisted : ∀ t arm, ¬ s.Listed t arm (.send r)) :
    Drops (.send r) s (s'.finishSend r) := by
  unfold finishSend
  dsimp only
  split
  · exact ((h.setRegistration hlisted _).releaseHandle _).setRegistration hlisted _
  · exact h.setRegistration hlisted _

theorem drops_finishReceive (h : Drops (.receive r) s s')
    (hlisted : ∀ t arm, ¬ s.Listed t arm (.receive r)) :
    Drops (.receive r) s (s'.finishReceive r) := by
  unfold finishReceive
  dsimp only
  split
  · exact ((h.setRegistration hlisted _).releaseHandle _).setRegistration hlisted _
  · exact h.setRegistration hlisted _

theorem steps_channelSendResume (hs : Coherent s) {r : SendRegId}
    (hlegal : Operation.ResumeLegal s (s.sendRegistrations r)) (k : Nat) :
    Steps k s (s.channelSendResume r).2.2 := by
  have hlisted := hs.not_listed_of_resume (w := .send r) hlegal
  unfold channelSendResume
  dsimp only
  by_cases hready : (s.sendRegistrations r).ready = true
  · have hdrops : Drops (.send r) s s :=
      .refl (hs.not_queued_of_ready (w := .send r) hready)
    rw [if_neg (by simp [hready])]
    split
    · have hfinish := drops_finishSend (hdrops.setRegistration hlisted
        { s.sendRegistrations r with valueOwned := false }) hlisted
      exact hfinish.toThins.steps hs hfinish.saturations k
    · have hfinish := drops_finishSend hdrops hlisted
      exact hfinish.toThins.steps hs hfinish.saturations k
  · rw [if_pos (by simp [hready])]
    have hpending : Thins s { s with pendingReason := .channel } := .of_same rfl rfl rfl rfl
    exact hpending.steps hs rfl k

theorem steps_channelReceiveResume (hs : Coherent s)
    (hlegal : Operation.ResumeLegal s (s.receiveRegistrations r)) (k : Nat) :
    Steps k s (s.channelReceiveResume r).2.2 := by
  have hlisted := hs.not_listed_of_resume (w := .receive r) hlegal
  unfold channelReceiveResume
  dsimp only
  by_cases hready : (s.receiveRegistrations r).ready = true
  · have hdrops : Drops (.receive r) s s :=
      .refl (hs.not_queued_of_ready (w := .receive r) hready)
    rw [if_neg (by simp [hready])]
    split
    · have hfinish := drops_finishReceive hdrops hlisted
      exact hfinish.toThins.steps hs hfinish.saturations k
    · have hfinish := drops_finishReceive (hdrops.setRegistration hlisted
        { s.receiveRegistrations r with valueOwned := false }) hlisted
      exact hfinish.toThins.steps hs hfinish.saturations k
  · rw [if_pos (by simp [hready])]
    have hpending : Thins s { s with pendingReason := .channel } := .of_same rfl rfl rfl rfl
    exact hpending.steps hs rfl k

/-! ## Starting a wait -/

theorem steps_channelSendStart (hs : Coherent s) {r : SendRegId}
    (hlegal : (s.sendRegistrations r).active = false) (c : ChannelId) (v : V) (t : Option TokenId)
    (arm : Nat) :
    Steps (if s.isOpen c then s.sendWakes c else 0) s
      (s.channelSendStart r (some c) v t arm).2.2 := by
  have hqueued : ∀ c, .send r ∉ s.waiting c := hs.not_queued (w := .send r) hlegal
  have hlisted : ∀ t arm, ¬ s.Listed t arm (.send r) := fun t arm hw => by
    have hactive := (hs.listed t arm _ hw).1
    rw [registration, hlegal] at hactive
    cases hactive
  have hreset : Thins s (s.setSend r {}) := thins_setRegistration (w := .send r) hqueued hlisted
  have hsend : Wakes (if s.isOpen c then s.sendWakes c else 0) (s.setSend r {})
      ((s.setSend r {}).channelTrySend (some c) v).2 :=
    wakes_channelTrySend (hreset.coherent hs) c v
  have hthins := hreset.trans hsend.toThins
  unfold channelSendStart
  cases htry : (s.setSend r {}).channelTrySend (some c) v with
  | mk outcome s' =>
    rw [htry] at hsend hthins
    have hstep : Steps (if s.isOpen c then s.sendWakes c else 0) s s' :=
      ⟨hthins.coherent hs, fun hroom => (hsend.room hroom).2⟩
    cases outcome with
    | sent | closed v | failed error v => exact hstep
    | full v =>
      obtain ⟨hcoherent, hsat⟩ := coherent_sendSuspend hstep.coherent
        (fun c' hmem => hqueued c' ((hthins.waiting c').subset hmem))
        (fun t arm hw => hlisted t arm (hthins.listed t arm _ hw).1) c v t arm
      exact ⟨hcoherent, fun hroom => hsat.trans (hstep.room hroom)⟩

theorem steps_channelReceiveStart (hs : Coherent s)
    (hlegal : (s.receiveRegistrations r).active = false) (c : ChannelId) (t : Option TokenId)
    (arm : Nat) :
    Steps (if s.hasValue c then s.receiveWakes c else 0) s
      (s.channelReceiveStart r (some c) t arm).2.2 := by
  have hqueued : ∀ c, .receive r ∉ s.waiting c := hs.not_queued (w := .receive r) hlegal
  have hlisted : ∀ t arm, ¬ s.Listed t arm (.receive r) := fun t arm hw => by
    have hactive := (hs.listed t arm _ hw).1
    rw [registration, hlegal] at hactive
    cases hactive
  have hreset : Thins s (s.setReceive r {}) :=
    thins_setRegistration (w := .receive r) hqueued hlisted
  have hreceive : Wakes (if s.hasValue c then s.receiveWakes c else 0) (s.setReceive r {})
      ((s.setReceive r {}).channelTryReceive (some c)).2 :=
    wakes_channelTryReceive (hreset.coherent hs) c
  have hthins := hreset.trans hreceive.toThins
  unfold channelReceiveStart
  cases htry : (s.setReceive r {}).channelTryReceive (some c) with
  | mk outcome s' =>
    rw [htry] at hreceive hthins
    have hstep : Steps (if s.hasValue c then s.receiveWakes c else 0) s s' :=
      ⟨hthins.coherent hs, fun hroom => (hreceive.room hroom).2⟩
    cases outcome with
    | value v | closed => exact hstep
    | empty =>
      obtain ⟨hcoherent, hsat⟩ := coherent_receiveSuspend hstep.coherent
        (fun c' hmem => hqueued c' ((hthins.waiting c').subset hmem))
        (fun t arm hw => hlisted t arm (hthins.listed t arm _ hw).1) c t arm
      exact ⟨hcoherent, fun hroom => hsat.trans (hstep.room hroom)⟩

/-! ## Tokens -/

variable {t : TokenId}

theorem coherent_selectRegister (hs : Coherent s) {arm : Nat} {target : CancelTarget}
    (hlegal : ∀ w, target = w.target → Operation.RegisterLegal (s.registration w) t arm) :
    Coherent (s.selectRegister t arm target) ∧
      (s.selectRegister t arm target).readyQueueSaturations = s.readyQueueSaturations := by
  unfold selectRegister
  dsimp only
  split
  · exact ⟨hs, rfl⟩
  refine ⟨⟨hs.nodup, fun c w hw => ?_, fun t' arm' w hw => ?_⟩, rfl⟩
  · have hlinked := hs.linked c w hw
    cases w <;> exact ⟨hlinked.registered, hlinked.active, hlinked.control, hlinked.ready⟩
  have hsame (token) : (s.setToken t token).registration w = s.registration w := by cases w <;> rfl
  rw [hsame]
  by_cases ht : t' = t
  · subst ht
    simp only [Listed, setToken, Function.update_self] at hw
    obtain ⟨hactive, hwinner, harm, hreg⟩ := hw
    simp only [Function.update_apply] at hreg
    split_ifs at hreg with heq
    · rw [heq]
      exact hlegal w (Option.some.inj hreg)
    · exact hs.listed t' arm' w ⟨hactive, hwinner, harm, hreg⟩
  · refine hs.listed t' arm' w ?_
    simpa [Listed, setToken, ht] using hw

theorem coherent_selectRegister_other (hs : Coherent s) (t : TokenId) (arm : Nat)
    (target : CancelTarget) (h : ∀ w : Waiter, target ≠ w.target) :
    Coherent (s.selectRegister t arm target) ∧
      (s.selectRegister t arm target).readyQueueSaturations = s.readyQueueSaturations :=
  coherent_selectRegister hs fun w hw => absurd hw (h w)

theorem settles_selectClaim (hs : Coherent s) (t : TokenId) (arm : Nat) :
    Settles s (s.selectClaim t arm).2 := by
  by_cases h : s.claimable t arm = true
  · obtain ⟨s', hs', hsettles, -⟩ := selectClaim_spec hs h
    rw [hs']
    exact hsettles
  · rw [Bool.not_eq_true] at h
    rw [selectClaim_of_not_claimable h]
    exact .refl s

/-- The runtime with other tokens. The cancel functions neither read nor write
them. -/
def withTokens (s : Runtime V) (tokens : TokenId → SelectToken) : Runtime V :=
  { s with tokens := tokens }

theorem channelReleaseHandle_withTokens (s : Runtime V) (tokens : TokenId → SelectToken)
    (handle : Option ChannelId) :
    (s.withTokens tokens).channelReleaseHandle handle
      = (s.channelReleaseHandle handle).withTokens tokens := by
  cases handle with
  | none => rfl
  | some c =>
    have hchannels : (s.withTokens tokens).channels c = s.channels c := rfl
    simp only [channelReleaseHandle, hchannels]
    cases s.channels c with
    | none => rfl
    | some control =>
      dsimp only
      split_ifs <;> rfl

theorem unlinkSendIfRegistered_withTokens (s : Runtime V) (tokens : TokenId → SelectToken)
    (r : SendRegId) :
    (s.withTokens tokens).unlinkSendIfRegistered r
      = (s.unlinkSendIfRegistered r).withTokens tokens := by
  have hreg : (s.withTokens tokens).sendRegistrations r = s.sendRegistrations r := rfl
  simp only [unlinkSendIfRegistered, hreg]
  split
  · rename_i c _ _
    have hchannels : (s.withTokens tokens).channels c = s.channels c := rfl
    simp only [channelUnlinkSend, hchannels]
    cases s.channels c with
    | none => rfl
    | some control =>
      dsimp only
      split_ifs <;> rfl
  · rfl

theorem unlinkReceiveIfRegistered_withTokens (s : Runtime V)
    (tokens : TokenId → SelectToken) (r : ReceiveRegId) :
    (s.withTokens tokens).unlinkReceiveIfRegistered r
      = (s.unlinkReceiveIfRegistered r).withTokens tokens := by
  have hreg : (s.withTokens tokens).receiveRegistrations r = s.receiveRegistrations r := rfl
  simp only [unlinkReceiveIfRegistered, hreg]
  split
  · rename_i c _ _
    have hchannels : (s.withTokens tokens).channels c = s.channels c := rfl
    simp only [channelUnlinkReceive, hchannels]
    cases s.channels c with
    | none => rfl
    | some control =>
      dsimp only
      split_ifs <;> rfl
  · rfl

theorem cancelRegistration_withTokens (s : Runtime V) (tokens : TokenId → SelectToken)
    (target : CancelTarget) :
    (s.withTokens tokens).cancelRegistration target
      = (s.cancelRegistration target).withTokens tokens := by
  cases target with
  | send r =>
    have hreg : (s.withTokens tokens).sendRegistrations r = s.sendRegistrations r := rfl
    simp only [cancelRegistration, channelSendCancel, hreg]
    split
    · rw [unlinkSendIfRegistered_withTokens]
      set s₁ := s.unlinkSendIfRegistered r
      have hreg₁ : (s₁.withTokens tokens).sendRegistrations r = s₁.sendRegistrations r := rfl
      rw [hreg₁, ← channelReleaseHandle_withTokens]
      split_ifs <;> rfl
    · rfl
  | receive r =>
    have hreg : (s.withTokens tokens).receiveRegistrations r = s.receiveRegistrations r := rfl
    simp only [cancelRegistration, channelReceiveCancel, hreg]
    split
    · rw [unlinkReceiveIfRegistered_withTokens]
      set s₁ := s.unlinkReceiveIfRegistered r
      have hreg₁ : (s₁.withTokens tokens).receiveRegistrations r
        = s₁.receiveRegistrations r := rfl
      rw [hreg₁, ← channelReleaseHandle_withTokens]
      split_ifs <;> rfl
    · rfl
  | timer r =>
    have hreg : (s.withTokens tokens).timerRegistrations r = s.timerRegistrations r := rfl
    have htimers : (s.withTokens tokens).timers = s.timers := rfl
    have howns : ∀ slot, (s.withTokens tokens).timerOwns r slot = s.timerOwns r slot :=
      fun _ => rfl
    simp only [cancelRegistration, timerDisarm, hreg, htimers, howns]
    split_ifs
    · cases s.timers[(s.timerRegistrations r).slot]? with
      | none => rfl
      | some slot =>
        dsimp only
        split_ifs <;> rfl
    · rfl
  | join child => rfl

theorem tokens_cancelRegistration (s : Runtime V) (target : CancelTarget) :
    (s.cancelRegistration target).tokens = s.tokens := by
  have h : s.cancelRegistration target = (s.cancelRegistration target).withTokens s.tokens :=
    cancelRegistration_withTokens s s.tokens target
  exact congrArg (fun s => s.tokens) h

theorem cancelArm_eq {arm : Nat} {target : CancelTarget}
    (h : (s.tokens t).registrations arm = some target) :
    cancelArm t s arm = (s.forgetArm t arm).cancelRegistration target := by
  have hforget : s.forgetArm t arm = s.withTokens (s.forgetArm t arm).tokens := rfl
  rw [hforget, cancelRegistration_withTokens, cancelArm, h]
  simp only [setToken, withTokens, forgetArm, tokens_cancelRegistration]

theorem active_cancelRegistration (s : Runtime V) (w : Waiter) :
    ((s.cancelRegistration w.target).registration w).active = false := by
  have hrelease : ∀ (s : Runtime V) (handle : Option ChannelId),
      (s.channelReleaseHandle handle).registration w = s.registration w := by
    intro s handle
    unfold channelReleaseHandle
    repeat' split
    all_goals cases w <;> rfl
  cases w with
  | send r =>
    simp only [cancelRegistration, Waiter.target, channelSendCancel]
    split
    · rw [hrelease]
      simp [registration, setSend]
    · rename_i h
      simpa [registration] using h
  | receive r =>
    simp only [cancelRegistration, Waiter.target, channelReceiveCancel]
    split
    · rw [hrelease]
      simp [registration, setReceive]
    · rename_i h
      simpa [registration] using h

/-- The registrations in the table of a token that are in use wait for it. -/
def Owned (s : Runtime V) (t : TokenId) : Prop :=
  ∀ arm w, (s.tokens t).registrations arm = some w.target →
    (s.registration w).active = true → (s.registration w).selectToken = some t

theorem owned_of_legal (h : Operation.CancelLegal s t) :
    s.Owned t := by
  intro arm w hreg
  cases w with
  | send r => exact (h arm).1 r hreg
  | receive r => exact (h arm).2 r hreg

theorem cancelOwned_spec (hs : Coherent s) (ht : s.Owned t) {arm : Nat}
    (harm : arm < (s.tokens t).armCount) :
    Settles s (cancelArm t s arm) ∧ Owned (cancelArm t s arm) t := by
  cases hreg : (s.tokens t).registrations arm with
  | none =>
    rw [cancelArm, hreg]
    exact ⟨.refl s, ht⟩
  | some target =>
    rw [cancelArm_eq hreg]
    have hforget := settles_forgetArm s t arm
    -- once forgotten, the arm is listed nowhere: it was listed as this arm only
    have hlisted : ∀ w, target = w.target → ∀ t' arm', ¬ (s.forgetArm t arm).Listed t' arm' w := by
      rintro w rfl t' arm' hw
      have hw' := (hforget.listed t' arm' w hw).1
      obtain ⟨hactive, htoken, harm'⟩ := hs.listed t' arm' w hw'
      have htoken' := ht arm w hreg hactive
      rw [htoken] at htoken'
      cases htoken'
      have hheld : s.Listed t arm w := ⟨hw'.1, hw'.2.1, harm, hreg⟩
      have heq : arm' = arm := by
        rw [← harm', (hs.listed t arm w hheld).2.2]
      have hnone := hw.2.2.2
      rw [registrations_forgetArm, if_pos heq] at hnone
      cases hnone
    obtain ⟨hsettles, hkeeps, htokens⟩ :=
      cancelRegistration_spec (hforget.coherent hs) target hlisted
    refine ⟨hforget.trans hsettles, fun arm' w hreg' hactive => ?_⟩
    rw [htokens, registrations_forgetArm] at hreg'
    split_ifs at hreg'
    by_cases hw : target = w.target
    · rw [hw, active_cancelRegistration] at hactive
      cases hactive
    have hsame : ((s.forgetArm t arm).cancelRegistration target).registration w
        = s.registration w := by
      rw [(hkeeps w hw).registration]
      cases w <;> rfl
    rw [hsame] at hactive ⊢
    exact ht arm' w hreg' hactive

theorem steps_selectCancel (hs : Coherent s) (hlegal : Operation.CancelLegal s t) (k : Nat) :
    Steps k s (s.selectCancel t) := by
  have hfold : ∀ (arms : List Nat) (s : Runtime V), Coherent s → s.Owned t →
      (∀ arm ∈ arms, arm < (s.tokens t).armCount) → Settles s (arms.foldl (cancelArm t) s) := by
    intro arms
    induction arms with
    | nil => exact fun s _ _ _ => .refl s
    | cons arm arms ih =>
      intro s hs ht hbound
      obtain ⟨hsettles, ht'⟩ := cancelOwned_spec hs ht (hbound arm List.mem_cons_self)
      refine hsettles.trans (ih _ (hsettles.coherent hs) ht' fun arm' hmem => ?_)
      rw [(hsettles.token t).armCount]
      exact hbound arm' (List.mem_cons_of_mem _ hmem)
  unfold selectCancel
  split
  · have hcancel := hfold (List.range (s.tokens t).armCount) s hs (owned_of_legal hlegal)
      fun arm hmem => List.mem_range.mp hmem
    set s₁ := (List.range (s.tokens t).armCount).foldl (cancelArm t) s
    have hset : Thins s₁ (s₁.setToken t { s₁.tokens t with
        active := false, suspended := false, enqueued := false }) :=
      thins_setToken fun arm w hactive _ _ _ => by cases hactive
    exact (hcancel.toThins.trans hset).steps hs hcancel.saturations k
  · exact (Thins.refl s).steps hs rfl k

/-! ## Children and timers -/

theorem wakes_readyEnqueue (s : Runtime V) (task : Task) :
    Wakes 1 s (s.readyEnqueue task).2 := by
  rw [readyEnqueue]
  split
  · rename_i hfull
    refine ⟨.of_same rfl rfl rfl rfl, fun _ => .refl _, fun hroom => ?_⟩
    omega
  · exact ⟨.of_same rfl rfl rfl rfl, fun _ => .refl _, fun _ => ⟨Nat.le_refl _, rfl⟩⟩

theorem settles_setJoin (s : Runtime V) (child : FrameId) (join : JoinState) :
    Settles s (s.setJoin child join) := by
  have hthins : Thins s (s.setJoin child join) := .of_same rfl rfl rfl rfl
  exact hthins.settles rfl rfl rfl

theorem wakes_structuredSpawn (s : Runtime V) (child : Task) :
    Wakes 1 s (s.structuredSpawn child) := by
  have hinit := settles_setJoin s child.frame {}
  have henqueue := wakes_readyEnqueue (s.setJoin child.frame {}) child
  rw [structuredSpawn]
  cases h : (s.setJoin child.frame {}).readyEnqueue child with
  | mk ok s' =>
    rw [h] at henqueue
    cases ok with
    | true => exact (hinit.wakes.trans henqueue).mono (by omega)
    | false =>
      exact ((hinit.wakes.trans henqueue).trans (settles_setJoin s' _ _).wakes).mono (by omega)

theorem wakes_claimWake (hs : Coherent s) (hset : Settles s s') (t : TokenId) (arm : Nat) :
    Wakes (if s.claimable t arm && s.wakesToken t then 1 else 0) s
      (match s'.selectClaim t arm with
        | (true, s) => s.selectWake t
        | (false, s) => s) := by
  by_cases hclaim : s'.claimable t arm = true
  · obtain ⟨s₁, hs₁, hsettles, -⟩ := selectClaim_spec (hset.coherent hs) hclaim
    rw [hs₁, claimable_of_settles (hset.token t) hclaim]
    refine ((hset.trans hsettles).wakes.trans (wakes_selectWake s₁ t)).mono ?_
    by_cases h : s₁.wakesToken t = true
    · simp [h, wakesToken_of_settles ((hset.trans hsettles).token t) h]
    · simp [h]
  · rw [Bool.not_eq_true] at hclaim
    rw [selectClaim_of_not_claimable hclaim]
    exact hset.wakes.mono (Nat.zero_le _)

theorem wakes_structuredComplete (hs : Coherent s) (child : FrameId) :
    Wakes (s.completeWakes child) s (s.structuredComplete child) := by
  unfold structuredComplete completeWakes
  dsimp only
  cases htoken : (s.joins child).waiterSelectToken with
  | none =>
    dsimp only
    cases hwaiter : (s.joins child).waiter with
    | none => exact (settles_setJoin s child _).wakes
    | some task =>
      dsimp only
      refine (((settles_setJoin s child _).wakes.trans
        (wakes_enqueueOrFail _ (some task))).trans (settles_setJoin _ child _).wakes).mono ?_
      exact Nat.le_refl 1
  | some t =>
    exact wakes_claimWake hs
      ((settles_setJoin s child _).trans (settles_setJoin _ child _)) t
      (s.joins child).waiterSelectArm

theorem settles_timerFree (s : Runtime V) (index : Nat) (slot : TimerSlot) :
    Settles s (s.timerFree index slot) := by
  have hthins : Thins s (s.timerFree index slot) := .of_same rfl rfl rfl rfl
  exact hthins.settles rfl rfl rfl

theorem settles_setTimer (s : Runtime V) (r : TimerRegId) (reg : TimerRegistration) :
    Settles s (s.setTimer r reg) := by
  have hthins : Thins s (s.setTimer r reg) := .of_same rfl rfl rfl rfl
  exact hthins.settles rfl rfl rfl

theorem wakes_fireTimer (hs : Coherent s) (index : Nat) :
    Wakes 1 s (s.fireTimer index).2 := by
  have hrefl : Wakes 1 s s := (Wakes.refl s).mono (Nat.zero_le _)
  unfold fireTimer
  cases s.timers[index]? with
  | none => exact hrefl
  | some slot =>
    dsimp only
    cases slot.registration with
    | none => exact hrefl
    | some r =>
      dsimp only
      split
      · exact hrefl
      cases htoken : (s.timerRegistrations r).selectToken with
      | none =>
        dsimp only
        have hset : Settles s ((s.setTimer r { s.timerRegistrations r with
            armed := false, expired := true }).timerFree index slot) :=
          (settles_setTimer s r _).trans (settles_timerFree _ index slot)
        rw [if_neg (by simp)]
        cases slot.task with
        | none => exact hset.wakes.mono (Nat.zero_le _)
        | some task => exact (hset.wakes.trans (wakes_readyEnqueue _ task)).mono (by omega)
      | some t =>
        dsimp only
        have hclaim := settles_selectClaim hs t (s.timerRegistrations r).selectArm
        set s₁ := (s.selectClaim t (s.timerRegistrations r).selectArm).2
        split
        · have hfail : Thins s₁ { s₁ with runtimeFailed := true } := .of_same rfl rfl rfl rfl
          exact (hclaim.trans (hfail.settles rfl rfl rfl)).wakes.mono (Nat.zero_le _)
        have hset : Settles s₁ ((s₁.setTimer r { s₁.timerRegistrations r with
            armed := false, expired := true }).timerFree index slot) :=
          (settles_setTimer s₁ r _).trans (settles_timerFree _ index slot)
        refine ((hclaim.trans hset).wakes.trans (wakes_selectWake _ t)).mono ?_
        split <;> omega

/-! ## Every operation -/

theorem thins_readyCancelFrame (s : Runtime V) (frame : FrameId) :
    Thins s (s.readyCancelFrame frame) :=
  .of_same rfl rfl rfl rfl

theorem steps_pollNext (hs : Coherent s) (k : Nat) : Steps k s s.pollNext := by
  unfold pollNext readyDequeue
  by_cases h : s.ready.count = 0
  · simp only [h, if_true]
    exact (Thins.refl s).steps hs rfl k
  simp only [h, if_false]
  cases s.ready.front with
  | none =>
    have hthins : Thins s { s with ready := s.ready.pop } := .of_same rfl rfl rfl rfl
    exact hthins.steps hs rfl k
  | some task =>
    have hthins : Thins s { s with ready := s.ready.pop, current := some task, pendingReason := .none } :=
      .of_same rfl rfl rfl rfl
    exact hthins.steps hs rfl k

theorem steps_channelNew (hs : Coherent s) (address : Option ChannelId) (size capacity k : Nat) :
    Steps k s (s.channelNew address size capacity).2 := by
  unfold channelNew
  split_ifs
  · exact (Thins.refl s).steps hs rfl k
  · exact (Thins.refl s).steps hs rfl k
  cases address with
  | none => exact (Thins.refl s).steps hs rfl k
  | some c =>
    have hthins : Thins s (s.setChannel c (some (.fresh capacity))) :=
      thins_setChannel (by simp [ChannelControl.fresh]) (by simp [ChannelControl.fresh])
    exact hthins.steps hs rfl k

theorem steps_timerStart (hs : Coherent s) (r : TimerRegId) (duration now : Int)
    (t : Option TokenId) (arm k : Nat) :
    Steps k s (s.timerStart r duration now t arm).2.2 := by
  unfold timerStart
  split_ifs
  · exact (Thins.refl s).steps hs rfl k
  · exact (Thins.refl s).steps hs rfl k
  cases s.freeTimerSlot with
  | none => exact (Thins.refl s).steps hs rfl k
  | some slot =>
    have hthins : Thins s { s.timerArm r slot (timerDeadline now duration) t arm with
        pendingReason := .timer } := .of_same rfl rfl rfl rfl
    exact hthins.steps hs rfl k

theorem steps_timerResume (hs : Coherent s) (r : TimerRegId) (k : Nat) :
    Steps k s (s.timerResume r).2.2 := by
  unfold timerResume
  dsimp only
  split_ifs
  · exact (settles_setTimer s r _).toThins.steps hs rfl k
  · have hthins : Thins s { s with pendingReason := .timer } := .of_same rfl rfl rfl rfl
    exact hthins.steps hs rfl k
  · exact (Thins.refl s).steps hs rfl k

/-- **One step.** A legal operation keeps the runtime coherent, and with room for
the tasks it wakes it does not saturate the ready queue. -/
theorem steps_apply (hs : Coherent s) (op : Operation V) (hlegal : op.Legal s) :
    Steps (wakeups op s) s (op.apply s) := by
  cases op with
  | pollRoot root =>
    have hthins : Thins s { s with current := some root, pendingReason := .none } :=
      .of_same rfl rfl rfl rfl
    exact hthins.steps hs rfl _
  | pollNext => exact steps_pollNext hs _
  | pollDone =>
    have hthins : Thins s { s with current := none } := .of_same rfl rfl rfl rfl
    exact hthins.steps hs rfl _
  | yield task => exact (wakes_readyEnqueue s task).steps hs
  | spawn child => exact (wakes_structuredSpawn s child).steps hs
  | complete child => exact (wakes_structuredComplete hs child).steps hs
  | joinWait child =>
    have hthins : Thins s (s.joinWait child) := .of_same rfl rfl rfl rfl
    exact hthins.steps hs rfl _
  | joinSelectWait child t arm =>
    have hset := settles_setJoin s child { s.joins child with
      waiter := s.current, waiterSelectToken := some t, waiterSelectArm := arm }
    obtain ⟨hcoherent, hsat⟩ := coherent_selectRegister_other (hset.coherent hs) t arm
      (.join child) fun w => by cases w <;> exact fun h => by cases h
    exact ⟨hcoherent, fun _ => hsat⟩
  | cancelFrame frame => exact (thins_readyCancelFrame s frame).steps hs rfl _
  | cancelled child => exact (settles_setJoin s child _).toThins.steps hs rfl _
  | channelNew address size capacity => exact steps_channelNew hs address size capacity _
  | retainHandle c =>
    have h := coherent_retainPending hs (some c) s.pendingReason
    exact ⟨(thins_channelRetainHandle s (some c)).coherent hs, fun _ => h.2⟩
  | releaseHandle c =>
    have hsettles := settles_channelReleaseHandle s (some c)
    exact hsettles.toThins.steps hs hsettles.saturations _
  | trySend c v => exact (wakes_channelTrySend hs c v).steps hs
  | tryReceive c => exact (wakes_channelTryReceive hs c).steps hs
  | close c => exact (wakes_channelClose hs c).steps hs
  | sendStart r c v t arm => exact steps_channelSendStart hs hlegal c v t arm
  | sendResume r => exact steps_channelSendResume hs hlegal _
  | sendCancel r =>
    have hdrops := drops_channelSendCancel hs (hs.not_listed_of_none (w := .send r) hlegal)
    exact hdrops.toThins.steps hs hdrops.saturations _
  | receiveStart r c t arm => exact steps_channelReceiveStart hs hlegal c t arm
  | receiveResume r => exact steps_channelReceiveResume hs hlegal _
  | receiveCancel r =>
    have hdrops :=
      drops_channelReceiveCancel hs (hs.not_listed_of_none (w := .receive r) hlegal)
    exact hdrops.toThins.steps hs hdrops.saturations _
  | selectInit t arms =>
    have hthins : Thins s (s.selectInit t arms) :=
      thins_setToken fun arm w _ _ _ hreg => by cases hreg
    exact hthins.steps hs rfl _
  | selectRegister t arm target =>
    have hregister : Coherent (s.selectRegister t arm target) ∧
        (s.selectRegister t arm target).readyQueueSaturations = s.readyQueueSaturations := by
      refine coherent_selectRegister hs fun w hw => ?_
      subst hw
      cases w <;> exact hlegal
    exact ⟨hregister.1, fun _ => hregister.2⟩
  | selectImmediateWin t arm =>
    have hsettles := settles_selectClaim hs t arm
    exact hsettles.toThins.steps hs hsettles.saturations _
  | selectSuspend t =>
    have hset : Thins s (s.setToken t { s.tokens t with suspended := true }) :=
      thins_setToken fun arm w hactive hwinner harm hreg => ⟨hactive, hwinner, harm, hreg⟩
    have hpending : Thins (s.setToken t { s.tokens t with suspended := true })
        (s.selectSuspend t) := .of_same rfl rfl rfl rfl
    exact (hset.trans hpending).steps hs rfl _
  | selectComplete t winner =>
    show Steps 0 s (s.selectComplete t winner)
    unfold selectComplete
    dsimp only
    split
    · exact (Thins.refl s).steps hs rfl _
    have hset : Thins s (s.setToken t { s.tokens t with
        registrations := Function.update (s.tokens t).registrations winner none
        active := false, suspended := false, enqueued := false }) :=
      thins_setToken fun arm w hactive _ _ _ => by cases hactive
    exact hset.steps hs rfl _
  | selectCancel t => exact steps_selectCancel hs hlegal _
  | timerStart r duration now t arm => exact steps_timerStart hs r duration now t arm _
  | timerResume r => exact steps_timerResume hs r _
  | timerDisarm r =>
    have hsettles := (settles_timerDisarm s r).1
    exact hsettles.toThins.steps hs hsettles.saturations _
  | timerExpire slot => exact (wakes_fireTimer hs slot).steps hs
  | ioComplete task => exact (wakes_enqueueOrFail s (some task)).steps hs

theorem coherent_initial : Coherent ({} : Runtime V) where
  nodup c := by simp [waiting, senders, receivers]
  linked c w hw := by simp [waiting, senders, receivers] at hw
  listed t arm w hw := by
    have hactive := hw.1
    cases hactive

end Runtime

/-! ## Runs -/

variable {V : Type u} {s : Runtime V}

/-- A spawn finds room for its child. -/
def SpawnAdmitted : Operation V → Runtime V → Prop
  | .spawn _, s => s.ready.count < readyCapacity
  | _, _ => True

/-- A wake-up finds room for the tasks it wakes. -/
def WakeAdmitted : Operation V → Runtime V → Prop
  | .spawn _, _ => True
  | op, s => RoomFor op s

theorem roomFor_of_admitted {op : Operation V} (hspawn : SpawnAdmitted op s)
    (hwake : WakeAdmitted op s) : RoomFor op s := by
  cases op
  case spawn child => exact hspawn
  all_goals exact hwake

/-- The parent of the crowded program. -/
def crowdedParent : Task := { frame := 0, poll := 0 }

/-- The runtime after the parent has spawned `n` children. -/
def crowdedRuntime : Nat → Runtime Nat
  | 0 => (Operation.pollRoot crowdedParent).apply {}
  | n + 1 => (Operation.spawn { frame := n + 1, poll := 1 }).apply (crowdedRuntime n)

theorem crowdedRuntime_spawned (n : Nat) (h : n ≤ readyCapacity) :
    Runs SpawnAdmitted {} (crowdedRuntime n) ∧ (crowdedRuntime n).ready.count = n ∧
      (crowdedRuntime n).readyQueueSaturations = 0 := by
  induction n with
  | zero => exact ⟨.step _ (.refl _) trivial trivial, rfl, rfl⟩
  | succ n ih =>
    obtain ⟨hrun, hcount, hsat⟩ := ih (by omega)
    have hroom : (crowdedRuntime n).ready.count ≠ readyCapacity := by omega
    have hspawn : crowdedRuntime (n + 1) = { (crowdedRuntime n).setJoin (n + 1) {} with
        ready := (crowdedRuntime n).ready.push { frame := n + 1, poll := 1 } } := by
      simp [crowdedRuntime, Operation.apply, Runtime.structuredSpawn, Runtime.readyEnqueue,
        Runtime.setJoin, hroom]
    refine ⟨.step _ hrun trivial ?_, ?_, ?_⟩
    · show (crowdedRuntime n).ready.count < readyCapacity
      omega
    · rw [hspawn, RingBuffer.count_push, hcount]
    · rw [hspawn]
      exact hsat

theorem saturations_yield_full (hfull : s.ready.count = readyCapacity) (task : Task) :
    ((Operation.yield task).apply s).readyQueueSaturations
      = s.readyQueueSaturations + 1 := by
  simp [Operation.apply, Runtime.readyEnqueue, hfull]

theorem requeue_full (hfull : s.ready.count = readyCapacity) (task : Task) :
    Host.requeue { s with current := none, pendingReason := .yield } task = none := by
  simp [Host.requeue, Runtime.readyEnqueue, hfull]

/-- The crowded program on the executor: the parent spawns its children and
yields. -/
def crowdedHost : Host Nat Unit where
  clock w := (0, w)
  reactorWait w s _ := ((false, false), s, w)
  poll task w s :=
    if task = crowdedParent then
      (.pending, { crowdedRuntime readyCapacity with pendingReason := .yield }, w)
    else
      (.ready, s, w)

end Nomo.Async
