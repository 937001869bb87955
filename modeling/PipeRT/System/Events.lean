import PipeRT.System.Queues

namespace PipeRT

namespace ChannelImpl

variable {ch : ChannelImpl}

-- How many events of the type were logged.
def logged (ch : ChannelImpl) (type : EventType) : Nat :=
  (ch.profileData.getD []).countP (·.type = type)

theorem logged_log (h : ch.profileData.isSome = true) (type type' : EventType) (value : Int) :
    (ch.log type value).logged type' = ch.logged type' + if type = type' then 1 else 0 := by
  have ⟨events, he⟩ := Option.isSome_iff_exists.mp h
  simp [logged, log, he, List.countP_cons]

theorem logged_congr {ch' : ChannelImpl} (h : ch'.profileData = ch.profileData) :
    ch'.logged = ch.logged := by
  funext type
  rw [logged, logged, h]

end ChannelImpl

namespace Client

-- The client has a packet that was logged as pushed and is not in the queue, without any trace of
-- how it left the queue.
def isPushed : Client → Bool
  | pushing .. | acquiring _ _ (.dropped _) | acquiring _ _ .logging => true
  | _                                                                => false

def isProcessing : Client → Bool
  | processing .. => true
  | _             => false

-- It is in a call of one of the methods of the channel, rather than between two of them.
def isCalling : Client → Bool
  | acquiring .. | pushing .. | releasing .. => true
  | filling .. | processing ..               => false

theorem isPushed_eq_false {x : Client} (h : x.isCalling = false) : x.isPushed = false := by
  cases x
  case filling | processing => rfl
  all_goals contradiction

end Client

-- The books that are kept of the events of a channel.
inductive Tally where
  | queued
  | filled
  | read

namespace Tally

variable {tally : Tally} {ch ch' : ChannelImpl}

-- By how much the events of one kind outnumber those that should match them.
def surplus (ch : ChannelImpl) : Tally → Int
  | queued => ch.logged .pushed - ch.logged .retrieved - ch.logged .droppedPacket - ch.queuedPackets.size
  | filled => ch.logged .fillTime - ch.logged .pushed
  | read   => ch.logged .retrieved - ch.logged .readTime

-- The clients that make up for it.
def owed : Tally → Client → Bool
  | queued => Client.isPushed
  | filled => fun _ => false
  | read   => Client.isProcessing

def due (tally : Tally) (x : Option Client) : Nat :=
  (x.any tally.owed).toNat

theorem surplus_congr (hp : ch'.profileData = ch.profileData)
    (hq : ch'.queuedPackets.size = ch.queuedPackets.size) : surplus ch' tally = surplus ch tally := by
  cases tally <;> simp [surplus, ChannelImpl.logged_congr hp, hq]

end Tally

-- The books are kept while the client goes from `x` to `x'`.
structure Booked (ch ch' : ChannelImpl) (x x' : Option Client) : Prop where
  profile : ch'.profileData.isSome = ch.profileData.isSome
  balance : ch.profileData.isSome = true → ∀ tally : Tally,
            tally.surplus ch' + tally.due x = tally.surplus ch + tally.due x'

-- Nothing is logged and the queue stays as long as it is.
theorem Booked.of_eq {ch ch' : ChannelImpl} {x x' : Option Client}
    (hp : ch'.profileData = ch.profileData) (hq : ch'.queuedPackets.size = ch.queuedPackets.size)
    (hx : ∀ tally : Tally, tally.due x = tally.due x') : Booked ch ch' x x' where
  profile := hp ▸ rfl
  balance _ tally := by rw [Tally.surplus_congr hp hq, hx]

-- A packet leaves the queue.
theorem Booked.popped {ch : ChannelImpl} {q : SteadyHeap Slot} {p : Slot} {rest : List Slot}
    {droppingPacket : Bool} {t : Time} {x x' : Option Client}
    (hf : ch.queuedPackets.heap = p :: rest) (hperm : q.heap.Perm rest)
    (hx : ∀ tally : Tally, tally.due x = 0)
    (hx' : ∀ tally : Tally, tally.due x' = match tally with
      | .queued => droppingPacket.toNat
      | .filled => 0
      | .read   => (!droppingPacket).toNat) : Booked ch (ch.popped q p droppingPacket t) x x' where
  profile := by cases droppingPacket <;> simp [ChannelImpl.popped, ChannelImpl.setQueued]
  balance hp tally := by
    have hsize : ch.queuedPackets.size = q.size + 1 := by
      simp [SteadyHeap.size, hf, hperm.length_eq]
    have hlog (type : EventType) : (ch.popped q p droppingPacket t).logged type = ch.logged type +
        if droppingPacket = false ∧ type = .retrieved then 1 else 0 := by
      cases droppingPacket
      case true =>
        have hs : (ch.popped q p true t).logged = ch.logged := ChannelImpl.logged_congr rfl
        simp [hs]
      case false =>
        have hs : ((ch.setQueued q).stamp p t).profileData.isSome = true := hp
        have hs' : ((ch.setQueued q).stamp p t).logged = ch.logged := ChannelImpl.logged_congr rfl
        simp [ChannelImpl.popped, ChannelImpl.logged_log hs, hs', eq_comm]
    cases tally <;> cases droppingPacket <;> simp [Tally.surplus, hlog, hx, hx', hsize]
    all_goals omega

-- The events of every channel that has profile data, as the clients account for them.
structure Tallied (impls : ChannelId → Option ChannelImpl) (clients : List Client) : Prop where
  balance : ∀ c ch, impls c = some ch → ch.profileData.isSome = true → ∀ tally : Tally,
            tally.surplus ch = clients.countP fun x => x.channel = c && tally.owed x

namespace Tallied

variable {impls : ChannelId → Option ChannelImpl} {clients : List Client} {c : ChannelId}
variable {ch ch' : ChannelImpl} {x x' : Option Client} {tally : Tally}

theorem move (rest : List Client) (h : Tallied impls clients) (hc : impls c = some ch)
    (hx : clients.Perm (x.toList ++ rest)) (hch : ∀ a ∈ x, a.channel = c)
    (hch' : ∀ a ∈ x', a.channel = c) (hb : Booked ch ch' x x') :
    Tallied (Function.update impls c (some ch')) (x'.toList ++ rest) where
  balance a b ha hp tally := by
    by_cases hac : a = c
    case pos =>
      subst hac
      obtain rfl : b = ch' := by simpa using ha.symm
      have hold := h.balance a ch hc (hb.profile ▸ hp) tally
      have hstep := hb.balance (hb.profile ▸ hp) tally
      rw [hx.countP_eq, Client.countP_toList_append hch] at hold
      rw [Client.countP_toList_append hch']
      simp only [Tally.due] at hstep
      omega
    case neg =>
      have hold := h.balance a b (by simpa [hac] using ha) hp tally
      rw [hx.countP_eq, Client.countP_toList_append_of_ne hch hac] at hold
      rwa [Client.countP_toList_append_of_ne hch' hac]

theorem acquire (h : Tallied impls clients) (timestamp : Time) :
    Tallied impls (.acquiring c timestamp (.round 0) :: clients) where
  balance b ch hb hp tally := by
    have hno : tally.owed (.acquiring c timestamp (.round 0)) = false := by cases tally <;> rfl
    simpa [hno] using h.balance b ch hb hp tally

theorem create (h : Tallied impls clients) (hne : ∀ x ∈ clients, x.channel ≠ c)
    (hp : ch.profileData.getD [] = []) (hq : ch.queuedPackets.heap = []) :
    Tallied (Function.update impls c (some ch)) clients where
  balance b ch' hb hp' tally := by
    by_cases hbc : b = c
    case neg => exact h.balance b ch' (by simpa [hbc] using hb) hp' tally
    case pos =>
      subst hbc
      obtain rfl : ch' = ch := by simpa using hb.symm
      rw [List.countP_eq_zero.mpr fun x hx => by simp [hne x hx]]
      cases tally <;> simp [Tally.surplus, ChannelImpl.logged, hp, hq, SteadyHeap.size]

theorem destroy (h : Tallied impls clients) : Tallied (Function.update impls c none) clients where
  balance b ch hb hp tally := by
    by_cases hbc : b = c
    case pos => simp [hbc] at hb
    case neg => exact h.balance b ch (by simpa [hbc] using hb) hp tally

end Tallied

namespace SchedulerImpl

variable {s s' : SchedulerImpl} {clients : List Client} {c : ChannelId} {t : Time} {wake : Nat}
variable {x : Client} {x' : Option Client} {ch ch' : ChannelImpl} {p : Slot}

theorem impl_eq_of_requeued {wake : Option Nat} (hr : Requeued (s.setImpl c ch) s' wake)
    (hc : s'.impls c = some ch') : ch' = ch :=
  Option.some.inj <| hc.symm.trans <| hr.impls ▸ setImpl_impls_self

section Stages

variable {timestamp : Time}

theorem booked_dropped (h : s.WF) (hacc : Accounted s.impls clients t)
    (hadv : s.Advances t wake (.acquiring c timestamp .dropping) x' ch ch' s') {packet : Option Slot}
    (hn : s.getNext c true t = .ok (packet, s')) :
    Booked ch ch' (some (.acquiring c timestamp .dropping))
      (packet.map fun p => .acquiring c timestamp (.dropped p)) := by
  cases getNext_spec h hacc hadv.impl true
  case inl hs =>
    obtain ⟨rfl, rfl⟩ := Prod.mk.inj <| Except.ok.inj <| hn.symm.trans hs.2
    obtain rfl := Option.some.inj <| hadv.impl'.symm.trans hadv.impl
    exact .of_eq rfl rfl fun tally => by cases tally <;> rfl
  case inr hs =>
    have ⟨p, rest, q, s₂, hf, hperm, hs₂, _, hr⟩ := hs
    obtain ⟨rfl, rfl⟩ := Prod.mk.inj <| Except.ok.inj <| hn.symm.trans hs₂
    obtain rfl := impl_eq_of_requeued hr hadv.impl'
    exact .popped hf hperm (fun tally => by cases tally <;> rfl) fun tally => by cases tally <;> rfl

theorem booked_pushed (h : s.WF) (hacc : Accounted s.impls clients t) (hx : .pushing c p ∈ clients)
    (ht : t < kMaxTime) (hadv : s.Advances t wake (.pushing c p) x' ch ch' s')
    (hs₁ : s.push c p wake = .ok s') : Booked ch ch' (some (.pushing c p)) none := by
  have hc : s.impls c = some ch := hadv.impl
  have hp : ch.timestamp p ≤ t := hacc.timely _ hx ch hc
  have ⟨s₂, q, hs₂, _, hperm, hr⟩ := push_spec h hc (hacc.size_queue_lt hx hc rfl)
    (hacc.notMem_queue hx hc rfl) (Int.lt_of_le_of_lt hp ht) wake
  obtain rfl := Except.ok.inj <| hs₁.symm.trans hs₂
  obtain rfl := impl_eq_of_requeued hr hadv.impl'
  have hlog : (ch.setQueued q).logged = ch.logged := ChannelImpl.logged_congr rfl
  have hsize : q.size = ch.queuedPackets.size + 1 := hperm.length_eq
  refine ⟨rfl, fun _ tally => ?_⟩
  cases tally <;>
    simp [Tally.surplus, Tally.due, Tally.owed, hlog, hsize, Client.isPushed, Client.isProcessing]
  omega

theorem booked_logged :
    Booked ch (ch.log .droppedPacket 1) (some (.acquiring c timestamp .logging))
      (some (.acquiring c timestamp (.round 1))) := by
  refine ⟨by simp, fun hp tally => ?_⟩
  cases tally <;>
    simp [Tally.surplus, Tally.due, Tally.owed, ChannelImpl.logged_log, hp, Client.isPushed,
      Client.isProcessing]
  omega

theorem booked_filled {v v' : Int} :
    Booked ch ((ch.log .pushed v).log .fillTime v') (some (.filling c p)) (some (.pushing c p)) := by
  refine ⟨by simp, fun hp tally => ?_⟩
  have hp' : (ch.log .pushed v).profileData.isSome := ch.log_profileData_isSome.trans hp
  cases tally <;>
    simp [Tally.surplus, Tally.due, Tally.owed, ChannelImpl.logged_log, hp, hp', Client.isPushed,
      Client.isProcessing]
  all_goals omega

theorem booked_processed {v : Int} :
    Booked ch ((ch.destruct p).log .readTime v) (some (.processing c p)) (some (.releasing c p)) := by
  refine ⟨by simp, fun hp tally => ?_⟩
  have hd : (ch.destruct p).logged = ch.logged := ChannelImpl.logged_congr rfl
  cases tally <;>
    simp [Tally.surplus, Tally.due, Tally.owed, ChannelImpl.logged_log, hp, hd, Client.isPushed,
      Client.isProcessing]
  omega

end Stages

-- A step that changes the channel in place.
theorem Advances.eq_of_setImpl {ch₀ ch₁ : ChannelImpl}
    (hadv : s.Advances t wake x x' ch ch' (s.setImpl x.channel ch₁))
    (hc : s.impls x.channel = some ch₀) : ch₀ = ch ∧ ch₁ = ch' :=
  ⟨Option.some.inj <| hc.symm.trans hadv.impl, Option.some.inj <| setImpl_impls_self.symm.trans hadv.impl'⟩

-- One step of a client, in any stage.
theorem Advances.booked {x : Client} (h : s.WF) (hacc : Accounted s.impls clients t)
    (hx : x ∈ clients) (ht : t < kMaxTime) (hadv : s.Advances t wake x x' ch ch' s') :
    Booked ch ch' (some x) x' := by
  cases advance_effect hadv.exec
  case dropped hn => exact booked_dropped h hacc hadv hn
  case pushed hp  => exact booked_pushed h hacc hx ht hadv hp
  case tookNone =>
    obtain rfl := Option.some.inj <| hadv.impl'.symm.trans hadv.impl
    refine .of_eq rfl rfl fun tally => ?_
    split <;> cases tally <;> rfl
  case took hc₀ _ =>
    obtain ⟨rfl, rfl⟩ := hadv.eq_of_setImpl hc₀
    exact .of_eq rfl rfl fun tally => by cases tally <;> rfl
  case acquired hc₀ _ =>
    obtain ⟨rfl, rfl⟩ := hadv.eq_of_setImpl hc₀
    exact .of_eq rfl rfl fun tally => by cases tally <;> rfl
  case freed hc₀ hg | released hc₀ hg =>
    obtain ⟨rfl, rfl⟩ := hadv.eq_of_setImpl hc₀
    obtain ⟨_, _, rfl⟩ := ChannelImpl.giveFree_eq_ok hg
    exact .of_eq rfl rfl fun tally => by cases tally <;> rfl
  case logged hc₀ =>
    obtain ⟨rfl, rfl⟩ := hadv.eq_of_setImpl hc₀
    exact booked_logged
  case filled hc₀ _ _ =>
    obtain ⟨rfl, rfl⟩ := hadv.eq_of_setImpl hc₀
    exact booked_filled
  case processed hc₀ _ =>
    obtain ⟨rfl, rfl⟩ := hadv.eq_of_setImpl hc₀
    exact booked_processed

end SchedulerImpl

namespace Tallied

variable {y y' : System} {a : Action}

theorem step (hi : y.Inv) (h : Tallied y.sched.impls y.clients) (ho : System.Outcome y a y') :
    Tallied y'.sched.impls y'.clients := by
  cases ho
  case tick | start | spawned | started | stop | notifiedAll | joined | invalid | entered | slept | left
    | woken | returned => exact h
  case created hn hcr =>
    rw [congrArg SchedulerImpl.impls hcr.frame]
    refine h.create (hi.accounted.channel_ne hn) ?_ rfl
    simp only [ChannelImpl.setProfileData]
    split <;> rfl
  case destroyed hd =>
    rw [congrArg SchedulerImpl.impls hd.frame]
    exact h.destroy
  case acquire => exact h.acquire _
  case polled c ch ch' packet s' hch hs' hr hm =>
    rw [hr.impls]
    refine h.move y.clients hch (.refl _) hm.channel hm.channel' ?_
    have hc' : s'.impls c = some ch' := hr.impls ▸ SchedulerImpl.setImpl_impls_self
    cases SchedulerImpl.getNext_spec hi.wf hi.accounted hch false
    case inl hn =>
      obtain ⟨rfl, rfl⟩ := Prod.mk.inj <| Except.ok.inj <| hs'.symm.trans hn.2
      obtain rfl := Option.some.inj <| hc'.symm.trans hch
      exact .of_eq rfl rfl fun _ => rfl
    case inr hn =>
      obtain ⟨p, rest, q, s₂, hf, hperm, hs₂, _, hr'⟩ := hn
      obtain ⟨rfl, rfl⟩ := Prod.mk.inj <| Except.ok.inj <| hs'.symm.trans hs₂
      obtain rfl := SchedulerImpl.impl_eq_of_requeued hr' hc'
      exact .popped hf hperm (fun _ => rfl) fun tally => by cases tally <;> rfl
  case advanced x x' ch ch' wake s' hx hadv =>
    rw [hadv.requeued.impls]
    exact h.move (x := some x) _ hadv.impl (List.perm_cons_erase hx) hadv.moved.channel
      hadv.moved.channel' <| hadv.booked hi.wf hi.accounted hx hi.clock
  case took i state c ch p rest q s' hi' hnext hf hperm hserve htk hm =>
    change Tallied s'.impls _
    rw [htk.impls]
    exact h.move y.clients hnext.impl (.refl _) hm.channel hm.channel' <|
      .popped hf hperm (fun _ => rfl) fun tally => by cases tally <;> rfl
  case executed i t₁ state c p ch hi' hch =>
    have hnone : y.clients.Perm ((none : Option Client).toList ++ y.clients) := .refl _
    change Tallied _ ((none : Option Client).toList ++ y.clients)
    refine h.move y.clients hch hnone (by simp) (by simp) ⟨by simp, fun hp tally => ?_⟩
    cases tally <;> simp [Tally.surplus, Tally.due, ChannelImpl.logged_log, hp]
  case finished i state s' hi' hn hf =>
    change Tallied s'.impls _
    rw [hf.impls]
    exact h

end Tallied

variable {y : System} {c : ChannelId} {ch : ChannelImpl} {events : List LogEvent}

theorem System.tallied (h : machine.Reachable Clean y) : Tallied y.sched.impls y.clients := by
  refine h.induction (P := fun y => Tallied y.sched.impls y.clients) (fun _ => ?_)
    fun y a y' hr ht ha e => ?_
  · rintro ⟨_, _, _, _, _, rfl⟩
    exact ⟨nofun⟩
  · have hi := safe.reachable hr
    exact ht.step hi <| hi.outcome_of_step ha e

-- While nobody is in a call, every packet that was pushed has left its trace.
theorem events_balanced (h : machine.Reachable System.Clean y) (hc : y.sched.impls c = some ch)
    (hp : ch.profileData.isSome = true)
    (hx : ∀ x ∈ y.clients, x.channel = c → x.isCalling = false) :
    ch.logged .pushed =
      ch.logged .retrieved + ch.logged .droppedPacket + ch.getQueuedBufferLength ∧
    ch.logged .fillTime = ch.logged .pushed ∧
    ch.logged .retrieved =
      ch.logged .readTime + y.clients.countP fun x => x.channel = c && x.isProcessing := by
  have hb := (System.tallied h).balance c ch hc hp
  have hnone : y.clients.countP (fun x => x.channel = c && x.isPushed) = 0 := by
    refine List.countP_eq_zero.mpr fun x hm => ?_
    by_cases hxc : x.channel = c
    case pos => simp [Client.isPushed_eq_false <| hx x hm hxc]
    case neg => simp [hxc]
  have hq : (Tally.queued).surplus ch = 0 := (hb .queued).trans <| congrArg _ hnone
  have hf : (Tally.filled).surplus ch = 0 := (hb .filled).trans <| by simp [Tally.owed]
  have hr := hb .read
  simp only [Tally.surplus] at hq hf hr
  refine ⟨?_, ?_, ?_⟩
  · simp only [ChannelImpl.getQueuedBufferLength]
    omega
  · omega
  · exact Int.ofNat_inj.mp <| (Int.sub_eq_iff_eq_add'.mp hr).trans (Int.natCast_add ..).symm

-- The second packet takes the place of the first one and is polled.
def overtaken : List Action := [
  .createChannel 1 "overtaken" 1 nullptr false,
  .acquire 1 0, .advance (.acquiring 1 0 (.round 0)) 0, .advance (.acquiring 1 0 (.acquired 0)) 0,
  .advance (.filling 1 0) 0, .advance (.pushing 1 0) 0,
  .acquire 1 1, .advance (.acquiring 1 1 (.round 0)) 0, .advance (.acquiring 1 1 .dropping) 0,
  .advance (.acquiring 1 1 (.dropped 0)) 0, .advance (.acquiring 1 1 .logging) 0,
  .advance (.acquiring 1 1 (.round 1)) 0, .advance (.acquiring 1 1 (.acquired 0)) 0,
  .advance (.filling 1 0) 0, .advance (.pushing 1 0) 0, .poll 1]

theorem events_balanced_overtaken :
    ∃ (y : System) (ch : ChannelImpl), y.sched.impls 1 = some ch ∧ y.clients = [.processing 1 0] ∧
      ch.logged .pushed = ch.logged .retrieved + ch.logged .droppedPacket + ch.getQueuedBufferLength ∧
      ch.logged .fillTime = ch.logged .pushed ∧
      ch.logged .retrieved =
        ch.logged .readTime + y.clients.countP fun x => x.channel = 1 && x.isProcessing := by
  have ⟨y, hr, hx, hs⟩ := Machine.exists_reachable_of_replay (M := machine)
    (s := .new 1 true 5) System.Clean overtaken
    (P := fun y => y.clients = [.processing 1 0] ∧
      (y.sched.impls 1).any (·.profileData.isSome) = true)
    ⟨1, true, 5, by decide, by decide, rfl⟩ (by decide)
  have ⟨ch, hc, hp⟩ := (Option.any_eq_true ..).mp hs
  exact ⟨y, ch, hc, hx, events_balanced hr hc hp <| by simp [hx, Client.isCalling]⟩

end PipeRT
