import Nomo.Async.Operation

/-!
# Who waits where

A task that waits on a channel has a registration in one of the channel's two
queues; a task that waits in a `task.select` has its registrations in the table
of its token as well. `Coherent` says that the two agree with the registrations:
a queued registration is in use, not served yet, and points back to its channel, no registration
is queued twice, and an arm a token could still lose belongs to that token.

Most operations can only take waiters away and leave the others as they are:
`Thins`. Three put something in: a send that finds the channel full, a receive
that finds it empty, and the registration of an arm.
-/

namespace Nomo.Async

open Nomo.Lib

universe u

/-- A registration of either kind. -/
inductive Waiter
  | send (r : SendRegId)
  | receive (r : ReceiveRegId)
deriving Repr, DecidableEq

/-- The registration as an entry of a token's table. -/
def Waiter.target : Waiter → CancelTarget
  | send r => .send r
  | receive r => .receive r

namespace Runtime

variable {V : Type u}

/-! ## The view of the queues -/

/-- The record of a registration. -/
def registration (s : Runtime V) : Waiter → ChannelRegistration V
  | .send r => s.sendRegistrations r
  | .receive r => s.receiveRegistrations r

/-- Overwrite a registration. -/
def setRegistration (s : Runtime V) : Waiter → ChannelRegistration V → Runtime V
  | .send r, reg => s.setSend r reg
  | .receive r, reg => s.setReceive r reg

/-- The senders that wait on a channel, first come first. -/
def senders (s : Runtime V) (c : ChannelId) : List SendRegId :=
  ((s.channels c).map (·.sendQueue)).getD []

/-- The receivers that wait on a channel, first come first. -/
def receivers (s : Runtime V) (c : ChannelId) : List ReceiveRegId :=
  ((s.channels c).map (·.receiveQueue)).getD []

/-- Everybody who waits on a channel. -/
def waiting (s : Runtime V) (c : ChannelId) : List Waiter :=
  (s.senders c).map .send ++ (s.receivers c).map .receive

/-- An arm that the token `t` could still lose. -/
def Listed (s : Runtime V) (t : TokenId) (arm : Nat) (w : Waiter) : Prop :=
  (s.tokens t).active = true ∧ (s.tokens t).winner = none ∧ arm < (s.tokens t).armCount ∧
    (s.tokens t).registrations arm = some w.target

/-- A registration that is queued on `c` knows it. -/
structure Linked (s : Runtime V) (c : ChannelId) (w : Waiter) : Prop where
  registered : (s.registration w).registered = true
  active : (s.registration w).active = true
  control : (s.registration w).control = some c
  ready : (s.registration w).ready = false

/-- The queues, the registrations and the tables of the tokens agree. -/
structure Coherent (s : Runtime V) : Prop where
  nodup : ∀ c, (s.waiting c).Nodup
  linked : ∀ c, ∀ w ∈ s.waiting c, s.Linked c w
  listed : ∀ t arm w, s.Listed t arm w →
    (s.registration w).active = true ∧ (s.registration w).selectToken = some t ∧
      (s.registration w).selectArm = arm

/-- From `s` to `s'` some waiters may have left; those that are still queued or
listed are as they were. -/
structure Thins (s s' : Runtime V) : Prop where
  senders : ∀ c, (s'.senders c).Sublist (s.senders c)
  receivers : ∀ c, (s'.receivers c).Sublist (s.receivers c)
  stays : ∀ c, ∀ w ∈ s'.waiting c, s'.registration w = s.registration w
  listed : ∀ t arm w, s'.Listed t arm w →
    s.Listed t arm w ∧ s'.registration w = s.registration w

/-! ### Reading the view back -/

@[simp] theorem mem_waiting_send {s : Runtime V} {c : ChannelId} {r : SendRegId} :
    Waiter.send r ∈ s.waiting c ↔ r ∈ s.senders c := by
  simp [waiting]

@[simp] theorem mem_waiting_receive {s : Runtime V} {c : ChannelId} {r : ReceiveRegId} :
    Waiter.receive r ∈ s.waiting c ↔ r ∈ s.receivers c := by
  simp [waiting]

theorem registration_setRegistration (s : Runtime V) (w : Waiter)
    (reg : ChannelRegistration V) :
    (s.setRegistration w reg).registration = Function.update s.registration w reg := by
  funext w'
  cases w <;> cases w' <;>
    simp [registration, setRegistration, setSend, setReceive, Function.update_apply]

@[simp] theorem channels_setRegistration (s : Runtime V) (w : Waiter)
    (reg : ChannelRegistration V) : (s.setRegistration w reg).channels = s.channels := by
  cases w <;> rfl

@[simp] theorem tokens_setRegistration (s : Runtime V) (w : Waiter)
    (reg : ChannelRegistration V) : (s.setRegistration w reg).tokens = s.tokens := by
  cases w <;> rfl

/-! ## Thinning -/

theorem Thins.refl (s : Runtime V) : Thins s s :=
  ⟨fun _ => List.Sublist.refl _, fun _ => List.Sublist.refl _, fun _ _ _ => rfl,
    fun _ _ _ h => ⟨h, rfl⟩⟩

theorem Thins.waiting {s s' : Runtime V} (h : Thins s s') (c : ChannelId) :
    (s'.waiting c).Sublist (s.waiting c) :=
  ((h.senders c).map _).append ((h.receivers c).map _)

theorem Thins.trans {s s' s'' : Runtime V} (h : Thins s s') (h' : Thins s' s'') :
    Thins s s'' where
  senders c := (h'.senders c).trans (h.senders c)
  receivers c := (h'.receivers c).trans (h.receivers c)
  stays c w hw := (h'.stays c w hw).trans (h.stays c w ((h'.waiting c).subset hw))
  listed t arm w hw := by
    obtain ⟨hw', hreg'⟩ := h'.listed t arm w hw
    obtain ⟨hw'', hreg⟩ := h.listed t arm w hw'
    exact ⟨hw'', hreg'.trans hreg⟩

/-- **Thinning keeps coherence.** -/
theorem Thins.coherent {s s' : Runtime V} (h : Thins s s') (hs : Coherent s) :
    Coherent s' where
  nodup c := (h.waiting c).nodup (hs.nodup c)
  linked c w hw := by
    have hlinked := hs.linked c w ((h.waiting c).subset hw)
    have hreg := h.stays c w hw
    exact ⟨hreg ▸ hlinked.registered, hreg ▸ hlinked.active, hreg ▸ hlinked.control, hreg ▸ hlinked.ready⟩
  listed t arm w hw := by
    obtain ⟨hw', hreg⟩ := h.listed t arm w hw
    rw [hreg]
    exact hs.listed t arm w hw'

theorem Thins.of_tokens {s s' : Runtime V} (hc : s'.channels = s.channels)
    (hsend : s'.sendRegistrations = s.sendRegistrations)
    (hreceive : s'.receiveRegistrations = s.receiveRegistrations)
    (hlisted : ∀ t arm w, s'.Listed t arm w → s.Listed t arm w) : Thins s s' where
  senders c := by rw [Runtime.senders, Runtime.senders, hc]
  receivers c := by rw [Runtime.receivers, Runtime.receivers, hc]
  stays c w _ := by cases w <;> simp [registration, hsend, hreceive]
  listed t arm w hw := by
    refine ⟨hlisted t arm w hw, ?_⟩
    cases w <;> simp [registration, hsend, hreceive]

theorem Thins.of_same {s s' : Runtime V} (hc : s'.channels = s.channels)
    (hsend : s'.sendRegistrations = s.sendRegistrations)
    (hreceive : s'.receiveRegistrations = s.receiveRegistrations)
    (htokens : s'.tokens = s.tokens) : Thins s s' :=
  .of_tokens hc hsend hreceive fun t arm w hw => by
    simpa only [Listed, htokens] using hw

theorem thins_setRegistration {s : Runtime V} {w : Waiter} {reg : ChannelRegistration V}
    (hqueued : ∀ c, w ∉ s.waiting c) (hlisted : ∀ t arm, ¬ s.Listed t arm w) :
    Thins s (s.setRegistration w reg) := by
  have hwaiting (c) : (s.setRegistration w reg).waiting c = s.waiting c := by
    simp [waiting, senders, receivers]
  refine ⟨fun c => ?_, fun c => ?_, fun c w' hw' => ?_, fun t arm w' hw' => ?_⟩
  · simp [senders]
  · simp [receivers]
  · rw [hwaiting] at hw'
    have hne : w' ≠ w := fun h => hqueued c (h ▸ hw')
    rw [registration_setRegistration, Function.update_of_ne hne]
  · have hw'' : s.Listed t arm w' := by simpa [Listed] using hw'
    have hne : w' ≠ w := fun h => hlisted t arm (h ▸ hw'')
    rw [registration_setRegistration, Function.update_of_ne hne]
    exact ⟨hw'', rfl⟩

theorem thins_setChannel {s : Runtime V} {c : ChannelId} {control : Option (ChannelControl V)}
    (hsend : ((control.map (·.sendQueue)).getD []).Sublist (s.senders c))
    (hreceive : ((control.map (·.receiveQueue)).getD []).Sublist (s.receivers c)) :
    Thins s (s.setChannel c control) := by
  refine ⟨fun c' => ?_, fun c' => ?_, fun c' w' _ => ?_, fun t arm w' hw' => ⟨hw', ?_⟩⟩
  · by_cases h : c' = c
    · subst h
      simpa [senders, setChannel] using hsend
    · simp [senders, setChannel, h]
  · by_cases h : c' = c
    · subst h
      simpa [receivers, setChannel] using hreceive
    · simp [receivers, setChannel, h]
  all_goals cases w' <;> rfl

theorem thins_setToken {s : Runtime V} {t : TokenId} {token : SelectToken}
    (h : ∀ arm w, token.active = true → token.winner = none → arm < token.armCount →
      token.registrations arm = some w.target → s.Listed t arm w) :
    Thins s (s.setToken t token) := by
  refine .of_tokens rfl rfl rfl fun t' arm w hw => ?_
  by_cases ht : t' = t
  · subst ht
    simp only [Listed, setToken, Function.update_self] at hw
    exact h arm w hw.1 hw.2.1 hw.2.2.1 hw.2.2.2
  · simpa [Listed, setToken, ht] using hw

end Runtime

end Nomo.Async
