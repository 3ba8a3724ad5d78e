import Nomo.Async.Waiting

/-!
# What a claim does to those who wait

A claim fixes the winner of a token and cancels the registrations of its other
arms. `Settles` is what a cancel, an unlinking or a claim may do: it thins the
queues, leaves the ready queue alone, and changes no more of a token than its
table and a winner that was still open. `Keeps w` says that the waiter `w` is not
among those cancelled.
-/

namespace Nomo.Async

open Nomo.Lib

universe u

/-- The queues of a channel without one registration. -/
def ChannelControl.drop {V : Type u} (control : ChannelControl V) : Waiter → ChannelControl V
  | .send r => { control with sendQueue := control.sendQueue.erase r }
  | .receive r => { control with receiveQueue := control.receiveQueue.erase r }

namespace Runtime

variable {V : Type u}

/-- What may happen to a token while another operation runs. -/
structure TokenSettles (token token' : SelectToken) : Prop where
  task : token'.task = token.task
  armCount : token'.armCount = token.armCount
  active : token'.active = token.active
  suspended : token'.suspended = token.suspended
  enqueued : token.enqueued = true → token'.enqueued = true
  winner : token.winner.isSome → token'.winner = token.winner

theorem TokenSettles.refl (token : SelectToken) : TokenSettles token token :=
  ⟨rfl, rfl, rfl, rfl, id, fun _ => rfl⟩

theorem TokenSettles.trans {a b c : SelectToken} (h : TokenSettles a b)
    (h' : TokenSettles b c) : TokenSettles a c where
  task := h'.task.trans h.task
  armCount := h'.armCount.trans h.armCount
  active := h'.active.trans h.active
  suspended := h'.suspended.trans h.suspended
  enqueued he := h'.enqueued (h.enqueued he)
  winner hsome := by
    have hb := h.winner hsome
    rw [h'.winner (hb ▸ hsome), hb]

/-- Waiters may leave, and nobody is woken. -/
structure Settles (s s' : Runtime V) : Prop extends Thins s s' where
  ready : s'.ready = s.ready
  saturations : s'.readyQueueSaturations = s.readyQueueSaturations
  token : ∀ t, TokenSettles (s.tokens t) (s'.tokens t)

theorem Settles.refl (s : Runtime V) : Settles s s :=
  ⟨Thins.refl s, rfl, rfl, fun _ => .refl _⟩

variable {s s' : Runtime V}

theorem Settles.trans {s'' : Runtime V} (h : Settles s s') (h' : Settles s' s'') :
    Settles s s'' :=
  ⟨h.toThins.trans h'.toThins, h'.ready.trans h.ready, h'.saturations.trans h.saturations,
    fun t => (h.token t).trans (h'.token t)⟩

theorem Thins.settles (h : Thins s s') (hready : s'.ready = s.ready)
    (hsat : s'.readyQueueSaturations = s.readyQueueSaturations) (htokens : s'.tokens = s.tokens) :
    Settles s s' :=
  ⟨h, hready, hsat, fun _ => htokens ▸ .refl _⟩

/-- The waiter `w` is as it was: its record, and its place in a queue whose
channel still exists. -/
structure Keeps (w : Waiter) (s s' : Runtime V) : Prop where
  registration : s'.registration w = s.registration w
  queued : ∀ c, w ∈ s.waiting c → w ∈ s'.waiting c ∨ s'.channels c = none
  freed : ∀ c, s.channels c = none → s'.channels c = none

theorem Keeps.refl (w : Waiter) (s : Runtime V) : Keeps w s s :=
  ⟨rfl, fun _ h => .inl h, fun _ h => h⟩

variable {w : Waiter}

theorem Keeps.trans {s'' : Runtime V} (h : Keeps w s s') (h' : Keeps w s' s'') : Keeps w s s'' where
  registration := h'.registration.trans h.registration
  queued c hw := by
    rcases h.queued c hw with hmem | hfree
    · exact h'.queued c hmem
    · exact .inr (h'.freed c hfree)
  freed c hc := h'.freed c (h.freed c hc)

theorem Keeps.of_same (hc : s'.channels = s.channels)
    (hsend : s'.sendRegistrations = s.sendRegistrations)
    (hreceive : s'.receiveRegistrations = s.receiveRegistrations) : Keeps w s s' where
  registration := by cases w <;> simp [Runtime.registration, hsend, hreceive]
  queued c hw := by
    refine .inl ?_
    simpa only [Runtime.waiting, Runtime.senders, Runtime.receivers, hc] using hw
  freed c h := by rw [hc, h]

theorem keeps_setRegistration {w' : Waiter} {reg : ChannelRegistration V} (hne : w ≠ w') :
    Keeps w s (s.setRegistration w' reg) where
  registration := by rw [registration_setRegistration, Function.update_of_ne hne]
  queued c hw := by
    refine .inl ?_
    simpa only [waiting, senders, receivers, channels_setRegistration] using hw
  freed c h := by rw [channels_setRegistration, h]

/-! ## Handles -/

theorem thins_setChannel_none (s : Runtime V) (c : ChannelId) :
    Thins s (s.setChannel c none) :=
  thins_setChannel (by simp) (by simp)

theorem settles_channelDestroy (s : Runtime V) (c : ChannelId) (control : ChannelControl V) :
    Settles s (s.channelDestroy c control) := by
  have hrelease : Thins s { s with released := s.released ++ control.buffer.contents } :=
    .of_same rfl rfl rfl rfl
  exact (hrelease.trans (thins_setChannel_none _ c)).settles rfl rfl rfl

variable {c : ChannelId} {control : ChannelControl V}

theorem thins_setChannel_some {control' : ChannelControl V} (hc : s.channels c = some control)
    (hsend : control'.sendQueue = control.sendQueue)
    (hreceive : control'.receiveQueue = control.receiveQueue) :
    Thins s (s.setChannel c (some control')) := by
  refine thins_setChannel ?_ ?_
  · simp [senders, hc, hsend]
  · simp [receivers, hc, hreceive]

theorem keeps_setChannel_some {control' : ChannelControl V} (hc : s.channels c = some control)
    (hsend : control'.sendQueue = control.sendQueue)
    (hreceive : control'.receiveQueue = control.receiveQueue) :
    Keeps w s (s.setChannel c (some control')) := by
  refine ⟨by cases w <;> rfl, fun c' hw => .inl ?_, fun c' h => ?_⟩
  · by_cases heq : c' = c
    · subst heq
      simpa [waiting, senders, receivers, setChannel, hc, hsend, hreceive] using hw
    · simpa [waiting, senders, receivers, setChannel, heq] using hw
  · have hne : c' ≠ c := fun heq => by simp [heq, hc] at h
    simp [setChannel, hne, h]

theorem settles_channelReleaseHandle (s : Runtime V) (handle : Option ChannelId) :
    Settles s (s.channelReleaseHandle handle) := by
  unfold channelReleaseHandle
  split
  · exact .refl s
  split
  · exact .refl s
  rename_i c _ control hc
  split
  · exact .refl s
  split
  · exact settles_channelDestroy s c _
  · have hthins : Thins s (s.setChannel c (some { control with references := control.references - 1 })) :=
      thins_setChannel_some hc rfl rfl
    exact hthins.settles rfl rfl rfl

/-- Giving a handle back keeps the waiters of every channel that survives. -/
theorem keeps_channelReleaseHandle (w : Waiter) (s : Runtime V) (handle : Option ChannelId) :
    Keeps w s (s.channelReleaseHandle handle) := by
  unfold channelReleaseHandle
  split
  · exact .refl w s
  split
  · exact .refl w s
  rename_i c _ control hc
  split
  · exact .refl w s
  split
  · refine ⟨by cases w <;> rfl, fun c' hw => ?_, fun c' h => ?_⟩
    · by_cases heq : c' = c
      · exact .inr (by simp [channelDestroy, setChannel, heq])
      · refine .inl ?_
        simpa [waiting, senders, receivers, channelDestroy, setChannel, heq] using hw
    · by_cases heq : c' = c
      · simp [channelDestroy, setChannel, heq]
      · simp [channelDestroy, setChannel, heq, h]
  · exact keeps_setChannel_some hc rfl rfl

/-! ## Unlinking -/

theorem Coherent.channel_unique (hs : Coherent s) {c' : ChannelId} (h : w ∈ s.waiting c)
    (h' : w ∈ s.waiting c') : c = c' := by
  have hc := (hs.linked c w h).control
  rw [(hs.linked c' w h').control] at hc
  exact (Option.some.inj hc).symm

theorem Coherent.senders_nodup (hs : Coherent s) (c : ChannelId) :
    (s.senders c).Nodup :=
  (List.nodup_append.mp (hs.nodup c)).1.of_map _

theorem Coherent.receivers_nodup (hs : Coherent s) (c : ChannelId) :
    (s.receivers c).Nodup :=
  (List.nodup_append.mp (hs.nodup c)).2.1.of_map _

/-- `s'` is `s` with the queues of `c` overwritten so that `w` is gone, and `w`'s
own record changed. -/
structure Drops (w : Waiter) (s s' : Runtime V) : Prop extends Settles s s' where
  gone : ∀ c, w ∉ s'.waiting c
  keeps : ∀ w', w' ≠ w → Keeps w' s s'
  tokens : s'.tokens = s.tokens

theorem drops_unlink (hs : Coherent s) (reg : ChannelRegistration V)
    (hc : s.channels c = some control) (hw : w ∈ s.waiting c)
    (hlisted : ∀ t arm, ¬ s.Listed t arm w) :
    Drops w s ((s.setChannel c (some (control.drop w))).setRegistration w reg) := by
  have hsenders : s.senders c = control.sendQueue := by simp [senders, hc]
  have hreceivers : s.receivers c = control.receiveQueue := by simp [receivers, hc]
  have hthins : Thins s (s.setChannel c (some (control.drop w))) := by
    refine thins_setChannel ?_ ?_
    · rw [hsenders]
      cases w
      · exact List.erase_sublist
      · exact List.Sublist.refl _
    · rw [hreceivers]
      cases w
      · exact List.Sublist.refl _
      · exact List.erase_sublist
  have hgone (c') : w ∉ (s.setChannel c (some (control.drop w))).waiting c' := by
    intro hmem
    have heq : c = c' := hs.channel_unique hw ((hthins.waiting c').subset hmem)
    subst heq
    cases w with
    | send r =>
      have hnodup := hs.senders_nodup c
      rw [hsenders] at hnodup
      rw [mem_waiting_send] at hmem
      simp only [senders, setChannel, Function.update_self, ChannelControl.drop,
        Option.map_some, Option.getD_some] at hmem
      exact hnodup.not_mem_erase hmem
    | receive r =>
      have hnodup := hs.receivers_nodup c
      rw [hreceivers] at hnodup
      rw [mem_waiting_receive] at hmem
      simp only [receivers, setChannel, Function.update_self, ChannelControl.drop,
        Option.map_some, Option.getD_some] at hmem
      exact hnodup.not_mem_erase hmem
  have hset : Thins (s.setChannel c (some (control.drop w)))
      ((s.setChannel c (some (control.drop w))).setRegistration w reg) :=
    thins_setRegistration hgone hlisted
  refine ⟨(hthins.trans hset).settles ?_ ?_ ?_, ?_, ?_, ?_⟩
  · cases w <;> rfl
  · cases w <;> rfl
  · cases w <;> rfl
  · exact fun c' hmem => hgone c' ((hset.waiting c').subset hmem)
  · intro w' hne
    have hchannel : Keeps w' s (s.setChannel c (some (control.drop w))) := by
      refine ⟨by cases w' <;> rfl, fun c' hw' => .inl ?_, fun c' h => ?_⟩
      · by_cases heq : c' = c
        · subst heq
          cases w' with
          | send r' =>
            rw [mem_waiting_send, hsenders] at hw'
            rw [mem_waiting_send]
            simp only [senders, setChannel, Function.update_self, Option.map_some, Option.getD_some]
            cases w with
            | send r =>
              exact (List.mem_erase_of_ne fun h => hne (congrArg Waiter.send h)).mpr hw'
            | receive r => exact hw'
          | receive r' =>
            rw [mem_waiting_receive, hreceivers] at hw'
            rw [mem_waiting_receive]
            simp only [receivers, setChannel, Function.update_self, Option.map_some, Option.getD_some]
            cases w with
            | send r => exact hw'
            | receive r =>
              exact (List.mem_erase_of_ne fun h => hne (congrArg Waiter.receive h)).mpr hw'
        · simpa [waiting, senders, receivers, setChannel, heq] using hw'
      · have hne' : c' ≠ c := fun heq => by simp [heq, hc] at h
        simp [setChannel, hne', h]
    exact hchannel.trans (keeps_setRegistration hne)
  · cases w <;> rfl

theorem Drops.trans {s'' : Runtime V} (h : Drops w s s') (hsettles : Settles s' s'')
    (hkeeps : ∀ w', w' ≠ w → Keeps w' s' s'') (htokens : s''.tokens = s'.tokens) :
    Drops w s s'' where
  toSettles := h.toSettles.trans hsettles
  gone c hw := h.gone c ((hsettles.waiting c).subset hw)
  keeps w' hne := (h.keeps w' hne).trans (hkeeps w' hne)
  tokens := htokens.trans h.tokens

theorem Drops.refl (h : ∀ c, w ∉ s.waiting c) : Drops w s s :=
  ⟨.refl s, h, fun w' _ => .refl w' s, rfl⟩

/-- A registration that is not in the queue of its channel is in none. -/
theorem Drops.of_control (hs : Coherent s) (hcontrol : (s.registration w).control = some c)
    (h : w ∉ s.waiting c) : Drops w s s := by
  refine .refl fun c' hw => h ?_
  have hlinked := (hs.linked c' _ hw).control
  rw [hcontrol] at hlinked
  cases hlinked
  exact hw

theorem Drops.setRegistration (h : Drops w s s') (hlisted : ∀ t arm, ¬ s.Listed t arm w)
    (reg : ChannelRegistration V) :
    Drops w s (s'.setRegistration w reg) := by
  have hthins : Thins s' (s'.setRegistration w reg) :=
    thins_setRegistration h.gone fun t arm hw => hlisted t arm (h.listed t arm w hw).1
  refine h.trans (hthins.settles ?_ ?_ ?_) (fun w' hne => keeps_setRegistration hne) ?_
  all_goals cases w <;> rfl

theorem Drops.release (h : Drops w s s') (v : Option V) :
    Drops w s (s'.release v) := by
  have hthins : Thins s' (s'.release v) := .of_same rfl rfl rfl rfl
  exact h.trans (hthins.settles rfl rfl rfl) (fun _ _ => .of_same rfl rfl rfl) rfl

theorem tokens_channelReleaseHandle (s : Runtime V) (handle : Option ChannelId) :
    (s.channelReleaseHandle handle).tokens = s.tokens := by
  unfold channelReleaseHandle
  repeat' split
  all_goals rfl

theorem Drops.releaseHandle (h : Drops w s s') (handle : Option ChannelId) :
    Drops w s (s'.channelReleaseHandle handle) :=
  h.trans (settles_channelReleaseHandle s' handle)
    (fun w' _ => keeps_channelReleaseHandle w' s' handle) (tokens_channelReleaseHandle s' handle)

theorem channels_of_mem_senders {r : SendRegId} (h : r ∈ s.senders c) :
    ∃ control, s.channels c = some control ∧ r ∈ control.sendQueue := by
  cases hc : s.channels c with
  | none => simp [senders, hc] at h
  | some control => exact ⟨control, rfl, by simpa [senders, hc] using h⟩

variable {r : ReceiveRegId}

theorem channels_of_mem_receivers (h : r ∈ s.receivers c) :
    ∃ control, s.channels c = some control ∧ r ∈ control.receiveQueue := by
  cases hc : s.channels c with
  | none => simp [receivers, hc] at h
  | some control => exact ⟨control, rfl, by simpa [receivers, hc] using h⟩

theorem drops_channelUnlinkSend (hs : Coherent s) {r : SendRegId} (hw : r ∈ s.senders c)
    (hlisted : ∀ t arm, ¬ s.Listed t arm (.send r)) :
    Drops (.send r) s (s.channelUnlinkSend c r) := by
  obtain ⟨control, hc, hmem⟩ := channels_of_mem_senders hw
  have hdrop := drops_unlink hs { s.sendRegistrations r with registered := false } hc (mem_waiting_send.mpr hw) hlisted
  rw [channelUnlinkSend]
  simp only [hc, hmem, if_true]
  exact hdrop

theorem drops_channelUnlinkReceive (hs : Coherent s) (hw : r ∈ s.receivers c)
    (hlisted : ∀ t arm, ¬ s.Listed t arm (.receive r)) :
    Drops (.receive r) s (s.channelUnlinkReceive c r) := by
  obtain ⟨control, hc, hmem⟩ := channels_of_mem_receivers hw
  have hdrop := drops_unlink hs { s.receiveRegistrations r with registered := false } hc (mem_waiting_receive.mpr hw) hlisted
  rw [channelUnlinkReceive]
  simp only [hc, hmem, if_true]
  exact hdrop

/-- The unlinking step of a cancel takes the registration out of whatever queue
it is in. -/
theorem drops_unlinkSendIfRegistered (hs : Coherent s) {r : SendRegId}
    (hlisted : ∀ t arm, ¬ s.Listed t arm (.send r)) :
    Drops (.send r) s (s.unlinkSendIfRegistered r) := by
  rw [unlinkSendIfRegistered]
  split
  · rename_i c _ hcontrol
    by_cases hmem : r ∈ s.senders c
    · exact drops_channelUnlinkSend hs hmem hlisted
    have hsame : s.channelUnlinkSend c r = s := by
      rw [channelUnlinkSend]
      split
      · rfl
      · rename_i control hc
        rw [if_neg]
        simpa [senders, hc] using hmem
    rw [hsame]
    exact .of_control hs hcontrol (mt mem_waiting_send.mp hmem)
  · rename_i hnot
    refine .refl fun c hw => ?_
    have hlinked := hs.linked c _ hw
    exact hnot c hlinked.registered hlinked.control

/-- The unlinking step of a cancel takes the registration out of whatever queue
it is in. -/
theorem drops_unlinkReceiveIfRegistered (hs : Coherent s)
    (hlisted : ∀ t arm, ¬ s.Listed t arm (.receive r)) :
    Drops (.receive r) s (s.unlinkReceiveIfRegistered r) := by
  rw [unlinkReceiveIfRegistered]
  split
  · rename_i c _ hcontrol
    by_cases hmem : r ∈ s.receivers c
    · exact drops_channelUnlinkReceive hs hmem hlisted
    have hsame : s.channelUnlinkReceive c r = s := by
      rw [channelUnlinkReceive]
      split
      · rfl
      · rename_i control hc
        rw [if_neg]
        simpa [receivers, hc] using hmem
    rw [hsame]
    exact .of_control hs hcontrol (mt mem_waiting_receive.mp hmem)
  · rename_i hnot
    refine .refl fun c hw => ?_
    have hlinked := hs.linked c _ hw
    exact hnot c hlinked.registered hlinked.control

/-! ## Cancelling -/

theorem Coherent.not_queued (hs : Coherent s) (h : (s.registration w).active = false)
    (c : ChannelId) : w ∉ s.waiting c := fun hw => by
  rw [(hs.linked c w hw).active] at h
  cases h

theorem drops_channelSendCancel (hs : Coherent s) {r : SendRegId}
    (hlisted : ∀ t arm, ¬ s.Listed t arm (.send r)) :
    Drops (.send r) s (s.channelSendCancel r) := by
  rw [channelSendCancel]
  split
  · have hunlink := drops_unlinkSendIfRegistered hs hlisted
    dsimp only
    split
    · exact ((hunlink.release _).setRegistration hlisted _).releaseHandle _
    · exact (hunlink.setRegistration hlisted _).releaseHandle _
  · rename_i hactive
    exact .refl (hs.not_queued (w := .send r) (by simpa [Runtime.registration] using hactive))

theorem drops_channelReceiveCancel (hs : Coherent s)
    (hlisted : ∀ t arm, ¬ s.Listed t arm (.receive r)) :
    Drops (.receive r) s (s.channelReceiveCancel r) := by
  rw [channelReceiveCancel]
  split
  · have hunlink := drops_unlinkReceiveIfRegistered hs hlisted
    dsimp only
    split
    · exact ((hunlink.release _).setRegistration hlisted _).releaseHandle _
    · exact (hunlink.setRegistration hlisted _).releaseHandle _
  · rename_i hactive
    exact .refl
      (hs.not_queued (w := .receive r) (by simpa [Runtime.registration] using hactive))

theorem settles_timerDisarm (s : Runtime V) (r : TimerRegId) :
    Settles s (s.timerDisarm r) ∧ (∀ w, Keeps w s (s.timerDisarm r)) ∧
      (s.timerDisarm r).tokens = s.tokens := by
  have hsame : (s.timerDisarm r).channels = s.channels ∧
      (s.timerDisarm r).sendRegistrations = s.sendRegistrations ∧
      (s.timerDisarm r).receiveRegistrations = s.receiveRegistrations ∧
      (s.timerDisarm r).tokens = s.tokens ∧ (s.timerDisarm r).ready = s.ready ∧
      (s.timerDisarm r).readyQueueSaturations = s.readyQueueSaturations := by
    unfold timerDisarm
    dsimp only
    split
    · split
      · exact ⟨rfl, rfl, rfl, rfl, rfl, rfl⟩
      · split <;> exact ⟨rfl, rfl, rfl, rfl, rfl, rfl⟩
    · exact ⟨rfl, rfl, rfl, rfl, rfl, rfl⟩
  obtain ⟨hc, hsend, hreceive, htokens, hready, hsat⟩ := hsame
  exact ⟨(Thins.of_same hc hsend hreceive htokens).settles hready hsat htokens,
    fun _ => .of_same hc hsend hreceive, htokens⟩

/-- What the cancel function of an entry does: it drops the waiter the entry
stands for, if it stands for one. -/
theorem cancelRegistration_spec (hs : Coherent s) (target : CancelTarget)
    (hlisted : ∀ w, target = w.target → ∀ t arm, ¬ s.Listed t arm w) :
    Settles s (s.cancelRegistration target) ∧
      (∀ w, target ≠ w.target → Keeps w s (s.cancelRegistration target)) ∧
      (s.cancelRegistration target).tokens = s.tokens := by
  cases target with
  | send r =>
    have hdrop := drops_channelSendCancel hs (hlisted (.send r) rfl)
    exact ⟨hdrop.toSettles, fun w hne => hdrop.keeps w fun h => hne (h ▸ rfl), hdrop.tokens⟩
  | receive r =>
    have hdrop := drops_channelReceiveCancel hs (hlisted (.receive r) rfl)
    exact ⟨hdrop.toSettles, fun w hne => hdrop.keeps w fun h => hne (h ▸ rfl), hdrop.tokens⟩
  | timer r =>
    obtain ⟨hsettles, hkeeps, htokens⟩ := settles_timerDisarm s r
    exact ⟨hsettles, fun w _ => hkeeps w, htokens⟩
  | join child =>
    have hthins : Thins s (s.joinSelectCancel child) := .of_same rfl rfl rfl rfl
    exact ⟨hthins.settles rfl rfl rfl, fun _ _ => .of_same rfl rfl rfl, rfl⟩

/-- No arm of the token `t` can be lost any more: neither by `t` nor by another
token. -/
def Unlisted (s : Runtime V) (t : TokenId) : Prop :=
  ∀ arm < (s.tokens t).armCount, ∀ w, (s.tokens t).registrations arm = some w.target →
    ∀ t' arm', ¬ s.Listed t' arm' w

/-- Empty one place of the table of a token. -/
def forgetArm (s : Runtime V) (t : TokenId) (arm : Nat) : Runtime V :=
  s.setToken t { s.tokens t with
    registrations := Function.update (s.tokens t).registrations arm none }

theorem registrations_forgetArm (s : Runtime V) (t : TokenId) (arm arm' : Nat) :
    ((s.forgetArm t arm).tokens t).registrations arm'
      = if arm' = arm then none else (s.tokens t).registrations arm' := by
  simp [forgetArm, setToken, Function.update_apply]

theorem winner_forgetArm (s : Runtime V) (t : TokenId) (arm : Nat) :
    ((s.forgetArm t arm).tokens t).winner = (s.tokens t).winner := by
  simp [forgetArm, setToken]

theorem settles_forgetArm (s : Runtime V) (t : TokenId) (arm : Nat) :
    Settles s (s.forgetArm t arm) := by
  have hthins : Thins s (s.forgetArm t arm) := by
    refine thins_setToken fun arm' w hactive hwinner harm hreg => ⟨hactive, hwinner, harm, ?_⟩
    simp only [Function.update_apply] at hreg
    split_ifs at hreg
    exact hreg
  refine ⟨hthins, rfl, rfl, fun t' => ?_⟩
  by_cases h : t' = t
  · subst h
    simp only [forgetArm, setToken, Function.update_self]
    exact ⟨rfl, rfl, rfl, rfl, id, fun _ => rfl⟩
  · simp only [forgetArm, setToken, Function.update_of_ne h]
    exact .refl _

theorem cancelArm_spec (hs : Coherent s) {t : TokenId} (ht : s.Unlisted t) {arm : Nat}
    (harm : arm < (s.tokens t).armCount) :
    Settles s (cancelArm t s arm) ∧ Unlisted (cancelArm t s arm) t ∧
      (∀ w, (s.tokens t).registrations arm ≠ some w.target → Keeps w s (cancelArm t s arm)) ∧
      (∀ arm', ((cancelArm t s arm).tokens t).registrations arm'
        = if arm' = arm then none else (s.tokens t).registrations arm') ∧
      ((cancelArm t s arm).tokens t).winner = (s.tokens t).winner := by
  rw [cancelArm]
  split
  · rename_i hnone
    refine ⟨.refl s, ht, fun w _ => .refl w s, fun arm' => ?_, rfl⟩
    split_ifs with h
    · rw [h, hnone]
    · rfl
  rename_i target htarget
  obtain ⟨hsettles, hkeeps, htokens⟩ := cancelRegistration_spec hs target fun w h => ht arm harm w (htarget.trans (congrArg some h))
  show Settles s ((s.cancelRegistration target).forgetArm t arm) ∧
    Unlisted ((s.cancelRegistration target).forgetArm t arm) t ∧ _
  have hthins := hsettles.trans (settles_forgetArm (s.cancelRegistration target) t arm)
  have hregs : ∀ arm', (((s.cancelRegistration target).forgetArm t arm).tokens t).registrations arm'
        = if arm' = arm then none else (s.tokens t).registrations arm' := fun arm' => by
    rw [registrations_forgetArm, htokens]
  refine ⟨hthins, fun arm' harm' w hreg t' arm'' hw => ?_, fun w hne => ?_, hregs, ?_⟩
  · rw [hregs] at hreg
    split_ifs at hreg
    rw [(hthins.token t).armCount] at harm'
    exact ht arm' harm' w hreg t' arm'' (hthins.listed t' arm'' w hw).1
  · have hne' : target ≠ w.target := fun h => hne (htarget.trans (congrArg some h))
    exact (hkeeps w hne').trans (.of_same rfl rfl rfl)
  · exact (winner_forgetArm _ t arm).trans (by rw [htokens])

theorem cancelArms_spec {t : TokenId} :
    ∀ (arms : List Nat) {s : Runtime V}, Coherent s → s.Unlisted t →
      (∀ arm ∈ arms, arm < (s.tokens t).armCount) →
      Settles s (arms.foldl (cancelArm t) s) ∧
      (∀ w, (∀ arm ∈ arms, (s.tokens t).registrations arm ≠ some w.target) →
        Keeps w s (arms.foldl (cancelArm t) s)) ∧
      ((arms.foldl (cancelArm t) s).tokens t).winner = (s.tokens t).winner := by
  intro arms
  induction arms with
  | nil => exact fun {s} _ _ _ => ⟨.refl s, fun w _ => .refl w s, rfl⟩
  | cons arm arms ih =>
    intro s hs ht hbound
    obtain ⟨hsettles, ht', hkeeps, hregs, hwinner⟩ :=
      cancelArm_spec hs ht (hbound arm List.mem_cons_self)
    obtain ⟨hsettles', hkeeps', hwinner'⟩ := ih (hsettles.coherent hs) ht' fun arm' hmem => by
      rw [(hsettles.token t).armCount]
      exact hbound arm' (List.mem_cons_of_mem _ hmem)
    refine ⟨hsettles.trans hsettles', fun w hw => ?_, hwinner'.trans hwinner⟩
    refine (hkeeps w (hw arm List.mem_cons_self)).trans (hkeeps' w fun arm' hmem => ?_)
    rw [hregs]
    split_ifs
    · exact fun h => by cases h
    · exact hw arm' (List.mem_cons_of_mem _ hmem)

/-- An arm can be claimed: the test of `nomo_async_select_claim`. -/
def claimable (s : Runtime V) (t : TokenId) (arm : Nat) : Bool :=
  (s.tokens t).active && (s.tokens t).winner.isNone && decide (arm < (s.tokens t).armCount)

theorem selectClaim_of_not_claimable {t : TokenId} {arm : Nat} (h : s.claimable t arm = false) :
    s.selectClaim t arm = (false, s) := by
  rw [selectClaim]
  dsimp only
  rw [if_pos]
  rw [claimable] at h
  cases hactive : (s.tokens t).active <;> cases hwinner : (s.tokens t).winner <;>
    simp_all

/-- **A claim.** It succeeds exactly on a claimable arm; then the token has its
winner, and only the waiters of other arms of this token are cancelled. -/
theorem selectClaim_spec (hs : Coherent s) {t : TokenId} {arm : Nat} (h : s.claimable t arm = true) :
    ∃ s', s.selectClaim t arm = (true, s') ∧ Settles s s' ∧
      (s'.tokens t).winner = some arm ∧
      ∀ w, (∀ arm', arm' ≠ arm → ¬ s.Listed t arm' w) → Keeps w s s' := by
  have hclaim := h
  rw [claimable, Bool.and_eq_true, Bool.and_eq_true] at hclaim
  obtain ⟨⟨hactive, hwinner⟩, harm⟩ := hclaim
  rw [Option.isNone_iff_eq_none] at hwinner
  have harm' : arm < (s.tokens t).armCount := by simpa using harm
  set s₁ := s.setToken t { s.tokens t with winner := some arm } with hs₁
  have htoken : s₁.tokens t = { s.tokens t with winner := some arm } := by
    simp [hs₁, setToken]
  have hset : Settles s s₁ := by
    refine ⟨thins_setToken fun arm' w _ hnone _ _ => (by cases hnone), rfl, rfl, fun t' => ?_⟩
    by_cases heq : t' = t
    · subst heq
      rw [htoken]
      exact ⟨rfl, rfl, rfl, rfl, id, fun hsome => by simp [hwinner] at hsome⟩
    · simp only [hs₁, setToken, Function.update_of_ne heq]
      exact .refl _
  have hunlisted : s₁.Unlisted t := by
    intro arm' hlt w hreg t' arm'' hw
    have hw' := (hset.listed t' arm'' w hw).1
    rw [htoken] at hreg hlt
    have hlisted := hs.listed t arm' w ⟨hactive, hwinner, hlt, hreg⟩
    have hlisted' := hs.listed t' arm'' w hw'
    have heq : t' = t := Option.some.inj (hlisted'.2.1.symm.trans hlisted.2.1)
    rw [heq] at hw
    have hnone := hw.2.1
    rw [htoken] at hnone
    cases hnone
  obtain ⟨hsettles, hkeeps, hwinner'⟩ := cancelArms_spec
    ((List.range (s.tokens t).armCount).filter (· ≠ arm)) (hset.coherent hs) hunlisted
    fun arm' hmem => by
      rw [htoken]
      exact List.mem_range.mp (List.mem_filter.mp hmem).1
  refine ⟨_, ?_, hset.trans hsettles, ?_, ?_⟩
  · rw [selectClaim]
    dsimp only
    rw [if_neg]
    simp [hactive, hwinner, harm']
  · rw [hwinner', htoken]
  · intro w hw
    have hsame : Keeps w s s₁ := .of_same rfl rfl rfl
    refine hsame.trans (hkeeps w fun arm' hmem hreg => ?_)
    rw [htoken] at hreg
    obtain ⟨hlt, hne⟩ := List.mem_filter.mp hmem
    have hne' : arm' ≠ arm := by simpa using hne
    exact hw arm' hne' ⟨hactive, hwinner, List.mem_range.mp hlt, hreg⟩

/-! ## Serving the first waiter -/

/-- `channelSendClaim` and `channelReceiveClaim` as one function. -/
def claimWaiter (s : Runtime V) (w : Waiter) : Bool × Runtime V :=
  match (s.registration w).selectToken with
  | none => (true, s)
  | some t => s.selectClaim t (s.registration w).selectArm

/-- A waiter can be served: it waits for itself, or its token can still be
claimed for its arm. -/
def waiterClaimable (s : Runtime V) (w : Waiter) : Bool :=
  match (s.registration w).selectToken with
  | none => true
  | some t => s.claimable t (s.registration w).selectArm

/-- What the claim of a waiter does: it stays where it is, and its token is
decided. -/
structure Claimed (w : Waiter) (s s' : Runtime V) : Prop extends Settles s s' where
  keeps : Keeps w s s'
  unlisted : ∀ t arm, ¬ s'.Listed t arm w
  won : ∀ t, (s.registration w).selectToken = some t → (s'.tokens t).winner.isSome

theorem claimWaiter_of_claimable (hs : Coherent s) (h : s.waiterClaimable w = true) :
    ∃ s', s.claimWaiter w = (true, s') ∧ Claimed w s s' := by
  rw [waiterClaimable] at h
  rw [claimWaiter]
  split at h
  · rename_i hnone
    refine ⟨s, rfl, .refl s, .refl w s, fun t arm hw => ?_, fun t ht => ?_⟩
    · rw [(hs.listed t arm w hw).2.1] at hnone
      cases hnone
    · rw [hnone] at ht
      cases ht
  rename_i t htoken
  obtain ⟨s', hclaim, hsettles, hwinner, hkeeps⟩ := selectClaim_spec hs h
  refine ⟨s', hclaim, hsettles, hkeeps w fun arm' hne hw => ?_, fun t' arm' hw => ?_,
    fun t' ht' => ?_⟩
  · exact hne (hs.listed t arm' w hw).2.2.symm
  · have hw' := hs.listed t' arm' w (hsettles.listed t' arm' w hw).1
    rw [htoken] at hw'
    cases hw'.2.1
    rw [hw.2.1] at hwinner
    cases hwinner
  · rw [htoken] at ht'
    cases ht'
    rw [hwinner]
    rfl

theorem claimWaiter_of_not_claimable (hs : Coherent s) (h : s.waiterClaimable w = false) :
    s.claimWaiter w = (false, s) ∧ ∀ t arm, ¬ s.Listed t arm w := by
  rw [waiterClaimable] at h
  rw [claimWaiter]
  split at h
  · cases h
  rename_i t htoken
  refine ⟨selectClaim_of_not_claimable h, fun t' arm' hw => ?_⟩
  obtain ⟨-, htoken', harm⟩ := hs.listed t' arm' w hw
  rw [htoken] at htoken'
  cases htoken'
  rw [claimable, harm] at h
  simp [hw.1, hw.2.1, hw.2.2.1] at h

/-- The head of a queue without repetition is still its head when others have
left. -/
theorem head_of_sublist {α : Type u} {x : α} {xs ys : List α} (hhead : xs.head? = some x)
    (hsub : ys.Sublist xs) (hmem : x ∈ ys) (hnodup : xs.Nodup) : ys.head? = some x := by
  obtain ⟨xs, rfl⟩ := List.head?_eq_some_iff.mp hhead
  rcases List.sublist_cons_iff.mp hsub with h | ⟨zs, rfl, -⟩
  · exact absurd (h.subset hmem) (List.nodup_cons.mp hnodup).1
  · rfl

theorem tail_eq_erase {α : Type u} [DecidableEq α] {x : α} {xs : List α} (hhead : xs.head? = some x) :
    xs.tail = xs.erase x := by
  obtain ⟨xs, rfl⟩ := List.head?_eq_some_iff.mp hhead
  simp

theorem drops_popReceiver (hs : Coherent s)
    (hhead : (s.receivers c).head? = some r ∨ s.channels c = none)
    (hcontrol : (s.receiveRegistrations r).control = some c)
    (hlisted : ∀ t arm, ¬ s.Listed t arm (.receive r)) (reg : ChannelRegistration V) :
    Drops (.receive r) s ((s.popReceiver c).setReceive r reg) := by
  rcases hhead with hhead | hfree
  · have hmem : r ∈ s.receivers c := List.mem_of_mem_head? (Option.mem_def.mpr hhead)
    obtain ⟨control, hc, -⟩ := channels_of_mem_receivers hmem
    have hpop : s.popReceiver c = s.setChannel c (some (control.drop (.receive r))) := by
      have htail : control.receiveQueue.tail = control.receiveQueue.erase r :=
        tail_eq_erase (by simpa [receivers, hc] using hhead)
      simp [popReceiver, hc, ChannelControl.drop, htail]
    rw [hpop]
    exact drops_unlink hs reg hc (mem_waiting_receive.mpr hmem) hlisted
  · have hpop : s.popReceiver c = s := by simp [popReceiver, hfree]
    rw [hpop]
    exact (Drops.of_control (w := .receive r) hs hcontrol (by simp [receivers, hfree])).setRegistration hlisted reg

theorem drops_popSender (hs : Coherent s) {r : SendRegId}
    (hhead : (s.senders c).head? = some r ∨ s.channels c = none)
    (hcontrol : (s.sendRegistrations r).control = some c)
    (hlisted : ∀ t arm, ¬ s.Listed t arm (.send r)) (reg : ChannelRegistration V) :
    Drops (.send r) s ((s.popSender c).setSend r reg) := by
  rcases hhead with hhead | hfree
  · have hmem : r ∈ s.senders c := List.mem_of_mem_head? (Option.mem_def.mpr hhead)
    obtain ⟨control, hc, -⟩ := channels_of_mem_senders hmem
    have hpop : s.popSender c = s.setChannel c (some (control.drop (.send r))) := by
      have htail : control.sendQueue.tail = control.sendQueue.erase r :=
        tail_eq_erase (by simpa [senders, hc] using hhead)
      simp [popSender, hc, ChannelControl.drop, htail]
    rw [hpop]
    exact drops_unlink hs reg hc (mem_waiting_send.mpr hmem) hlisted
  · have hpop : s.popSender c = s := by simp [popSender, hfree]
    rw [hpop]
    exact (Drops.of_control (w := .send r) hs hcontrol (by simp [senders, hfree])).setRegistration hlisted reg

theorem Claimed.receiver_head (h : Claimed (.receive r) s s') (hs : Coherent s)
    (hhead : (s.receivers c).head? = some r) :
    (s'.receivers c).head? = some r ∨ s'.channels c = none := by
  have hmem : r ∈ s.receivers c := List.mem_of_mem_head? (Option.mem_def.mpr hhead)
  refine (h.keeps.queued c (mem_waiting_receive.mpr hmem)).imp_left fun hw => ?_
  exact head_of_sublist hhead (h.receivers c) (mem_waiting_receive.mp hw) (hs.receivers_nodup c)

theorem Claimed.sender_head {r : SendRegId} (h : Claimed (.send r) s s') (hs : Coherent s)
    (hhead : (s.senders c).head? = some r) :
    (s'.senders c).head? = some r ∨ s'.channels c = none := by
  have hmem : r ∈ s.senders c := List.mem_of_mem_head? (Option.mem_def.mpr hhead)
  refine (h.keeps.queued c (mem_waiting_send.mpr hmem)).imp_left fun hw => ?_
  exact head_of_sublist hhead (h.senders c) (mem_waiting_send.mp hw) (hs.senders_nodup c)

end Runtime

end Nomo.Async
