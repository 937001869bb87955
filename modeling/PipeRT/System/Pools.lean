import PipeRT.System.Advance
import PipeRT.Scheduler.Capacity

namespace PipeRT

-- The packets in the containers of a channel are from its own pool.
def ChannelImpl.Inside (ch : ChannelImpl) : Prop :=
  ∀ p ∈ ch.freePackets ++ ch.queuedPackets.heap, p < ch.capacity

namespace ChannelImpl.Inside

variable {ch ch' : ChannelImpl} {q : SteadyHeap Slot} {p : Slot}

theorem new (name : String) (capacity : Nat) (state : Ptr) (callback : Bool) :
    (ChannelImpl.new name capacity state callback).Inside := by
  simp [Inside, ChannelImpl.new, SteadyHeap.reserve, SteadyHeap.empty]

theorem congr (h : ch.Inside) (hcap : ch'.capacity = ch.capacity) (hf : ch'.freePackets = ch.freePackets)
    (hq : ch'.queuedPackets = ch.queuedPackets) : ch'.Inside := by
  rw [Inside, hcap, hf, hq]
  exact h

theorem free (h : ch.Inside) (hp : p ∈ ch.freePackets) : p < ch.capacity :=
  h p <| List.mem_append_left _ hp

theorem queued (h : ch.Inside) (hp : p ∈ ch.queuedPackets.heap) : p < ch.capacity :=
  h p <| List.mem_append_right _ hp

theorem setQueued (h : ch.Inside) (hq : ∀ p ∈ q.heap, p < ch.capacity) : (ch.setQueued q).Inside := by
  intro p hp
  cases List.mem_append.mp hp
  case inl hp => exact h.free hp
  case inr hp => exact hq p hp

theorem setFree {packets : List Slot} (h : ch.Inside) (hf : ∀ p ∈ packets, p < ch.capacity) :
    Inside { ch with freePackets := packets } := by
  intro p hp
  cases List.mem_append.mp hp
  case inl hp => exact hf p hp
  case inr hp => exact h.queued hp

theorem giveFree (h : ch.Inside) (hg : ch.giveFree p = .ok ch') : ch'.Inside := by
  obtain ⟨hlt, _, rfl⟩ := giveFree_eq_ok hg
  refine h.setFree fun a ha => ?_
  cases List.mem_append.mp ha
  case inl ha => exact h.free ha
  case inr ha => exact List.mem_singleton.mp ha ▸ hlt

end ChannelImpl.Inside

namespace SchedulerImpl

def Inside (s : SchedulerImpl) : Prop :=
  ∀ c ch, s.impls c = some ch → ch.Inside

-- The channel is alive, and the packet is from its pool.
def HasSlot (s : SchedulerImpl) (c : ChannelId) (p : Slot) : Prop :=
  ∃ ch, s.impls c = some ch ∧ p < ch.capacity

variable {s s' : SchedulerImpl} {c : ChannelId} {ch ch' : ChannelImpl} {p : Slot} {t : Time} {wake : Nat}

theorem HasSlot.lt (h : s.HasSlot c p) (hc : s.impls c = some ch) : p < ch.capacity := by
  obtain ⟨ch', hc', hlt⟩ := h
  exact Option.some.inj (hc'.symm.trans hc) ▸ hlt

-- `Push` and `PopNext` change the queue of one channel.
theorem push_impls (h : s.push c p wake = .ok s') :
    ∃ ch q, s.impls c = some ch ∧ ch.queuedPackets.pushHeap ch.packetOrdering p = .ok q ∧
      s'.impls = (s.setImpl c (ch.setQueued q)).impls := by
  obtain ⟨ch, hd, h⟩ := bind_eq_ok.mp h
  obtain ⟨_, _, h⟩ := bind_eq_ok.mp h
  obtain ⟨earliest, h⟩ := exists_of_ite_bind h
  obtain ⟨q, hq, h⟩ := bind_eq_ok.mp h
  refine ⟨ch, q, impl_of_deref hd, hq, ?_⟩
  dsimp only at h
  split at h
  case isFalse => exact Except.ok.inj h ▸ rfl
  case isTrue =>
    obtain ⟨next, _, h⟩ := bind_eq_ok.mp h
    split at h
    case isFalse => exact Except.ok.inj h ▸ rfl
    case isTrue =>
      split at h
      case isTrue  => exact (jobsArrived_kept h).impls
      case isFalse => exact (jobsUpdated_kept h).impls

theorem unqueue_impls (h : s.unqueue c = .ok (p, s')) :
    ∃ ch q, s.impls c = some ch ∧ p ∈ ch.queuedPackets.heap ∧
      ch.queuedPackets.popHeap ch.packetOrdering = .ok q ∧
      s'.impls = (s.setImpl c (ch.setQueued q)).impls := by
  obtain ⟨ch, hd, h⟩ := bind_eq_ok.mp h
  obtain ⟨_, _, h⟩ := bind_eq_ok.mp h
  split at h
  case h_1 => contradiction
  case h_2 earliest hfront =>
    have hm := List.mem_of_head? hfront
    obtain ⟨q, hq, h⟩ := bind_eq_ok.mp h
    split at h
    case isFalse =>
      obtain ⟨rfl, rfl⟩ := Prod.mk.inj (Except.ok.inj h)
      exact ⟨ch, q, impl_of_deref hd, hm, hq, rfl⟩
    case isTrue =>
      split at h
      case isTrue =>
        obtain ⟨s₁, hj, h⟩ := bind_eq_ok.mp h
        obtain ⟨rfl, rfl⟩ := Prod.mk.inj (Except.ok.inj h)
        exact ⟨ch, q, impl_of_deref hd, hm, hq, (jobsDropped_kept hj).impls⟩
      case isFalse =>
        split at h
        case isTrue =>
          obtain ⟨s₁, hj, h⟩ := bind_eq_ok.mp h
          obtain ⟨rfl, rfl⟩ := Prod.mk.inj (Except.ok.inj h)
          exact ⟨ch, q, impl_of_deref hd, hm, hq, (jobsUpdated_kept hj).impls⟩
        case isFalse =>
          obtain ⟨rfl, rfl⟩ := Prod.mk.inj (Except.ok.inj h)
          exact ⟨ch, q, impl_of_deref hd, hm, hq, rfl⟩

theorem createChannel_impls {name : String} {capacity : Nat} {state : Ptr} {callback : Bool}
    (h : s.createChannel c name capacity state callback = .ok s') :
    ∃ ch : ChannelImpl, ch.Inside ∧ s'.impls = Function.update s.impls c (some ch) := by
  have ⟨_, hr, _⟩ := bind_eq_ok.mp h
  have hr : s.running = false := of_check hr
  obtain rfl := Except.ok.inj <| (createChannel_eq hr rfl).symm.trans h
  refine ⟨_, ?_, rfl⟩
  exact (ChannelImpl.Inside.new name capacity state callback).congr rfl rfl rfl

theorem destroyChannel_impls (h : s.destroyChannel c = .ok s') :
    s'.impls = Function.update s.impls c none := by
  obtain ⟨s₁, hu, h⟩ := bind_eq_ok.mp h
  obtain rfl := Except.ok.inj h
  obtain ⟨_, _, hu⟩ := bind_eq_ok.mp hu
  obtain ⟨_, _, hu⟩ := bind_eq_ok.mp hu
  obtain ⟨ch, _, hu⟩ := bind_eq_ok.mp hu
  split at hu
  case isTrue =>
    obtain ⟨_, _, hu⟩ := bind_eq_ok.mp hu
    obtain rfl := Except.ok.inj hu
    exact Function.update_idem ..
  case isFalse => exact Except.ok.inj hu ▸ rfl

namespace Inside

theorem congr (h : s.Inside) (hi : s'.impls = s.impls) : s'.Inside := by
  rw [Inside, hi]
  exact h

theorem setImpl (h : s.Inside) (hch : ch.Inside) : (s.setImpl c ch).Inside := by
  intro a ch' ha
  by_cases hac : a = c
  case pos =>
    subst hac
    exact Option.some.inj (setImpl_impls_self.symm.trans ha) ▸ hch
  case neg => exact h a ch' <| setImpl_impls_ne hac ▸ ha

theorem create {name : String} {capacity : Nat} {state : Ptr} {callback : Bool} (h : s.Inside)
    (he : s.createChannel c name capacity state callback = .ok s') : s'.Inside := by
  obtain ⟨ch, hch, hi⟩ := createChannel_impls he
  exact (h.setImpl hch).congr hi

theorem destroy (h : s.Inside) (he : s.destroyChannel c = .ok s') : s'.Inside := by
  intro a ch ha
  rw [destroyChannel_impls he] at ha
  by_cases hac : a = c
  case pos => simp [hac] at ha
  case neg => exact h a ch <| by simpa [hac] using ha

theorem push (h : s.Inside) (hp : s.HasSlot c p) (he : s.push c p wake = .ok s') : s'.Inside := by
  obtain ⟨ch, q, hc, hq, hi⟩ := push_impls he
  refine (h.setImpl <| (h c ch hc).setQueued fun a ha => ?_).congr hi
  cases List.mem_cons.mp <| SteadyHeap.pushHeap_subset hq ha
  case inl ha => exact ha ▸ hp.lt hc
  case inr ha => exact (h c ch hc).queued ha

theorem unqueue (h : s.Inside) (he : s.unqueue c = .ok (p, s')) : s'.Inside ∧ s.HasSlot c p := by
  obtain ⟨ch, q, hc, hm, hq, hi⟩ := unqueue_impls he
  have hin := h c ch hc
  refine ⟨(h.setImpl <| hin.setQueued fun a ha => ?_).congr hi, ch, hc, hin.queued hm⟩
  exact hin.queued <| SteadyHeap.popHeap_subset hq ha

theorem popNext {droppingPacket : Bool} (h : s.Inside) (he : s.popNext c droppingPacket t = .ok (p, s')) :
    s'.Inside ∧ s.HasSlot c p := by
  obtain ⟨⟨earliest, s₁⟩, hu, he⟩ := bind_eq_ok.mp he
  have ⟨h₁, hp⟩ := h.unqueue hu
  cases droppingPacket
  case true =>
    obtain ⟨rfl, rfl⟩ := Prod.mk.inj (Except.ok.inj he)
    exact ⟨h₁, hp⟩
  case false =>
    obtain ⟨ch, hd, he⟩ := bind_eq_ok.mp he
    obtain ⟨_, _, he⟩ := bind_eq_ok.mp he
    obtain ⟨rfl, rfl⟩ := Prod.mk.inj (Except.ok.inj he)
    exact ⟨h₁.setImpl <| (h₁ c ch (impl_of_deref hd)).congr rfl rfl rfl, hp⟩

theorem getNext {droppingPacket : Bool} {packet : Option Slot} (h : s.Inside)
    (he : s.getNext c droppingPacket t = .ok (packet, s')) :
    s'.Inside ∧ ∀ p ∈ packet, s.HasSlot c p := by
  obtain ⟨ch, _, he⟩ := bind_eq_ok.mp he
  split at he
  case isFalse =>
    obtain ⟨rfl, rfl⟩ := Prod.mk.inj (Except.ok.inj he)
    exact ⟨h, nofun⟩
  case isTrue =>
    obtain ⟨⟨earliest, s₁⟩, hp, he⟩ := bind_eq_ok.mp he
    obtain ⟨rfl, rfl⟩ := Prod.mk.inj (Except.ok.inj he)
    have ⟨h₁, hp⟩ := h.popNext hp
    exact ⟨h₁, fun p hm => Option.some.inj hm ▸ hp⟩

theorem takeNext {state : Ptr} (h : s.Inside) (he : s.takeNext t = .ok (state, c, p, s')) :
    s'.Inside ∧ s.HasSlot c p := by
  rw [SchedulerImpl.takeNext] at he
  split at he
  case h_1 => contradiction
  case h_2 state₁ _ =>
    split at he
    case h_1 => contradiction
    case h_2 chq _ =>
      obtain ⟨_, _, he⟩ := bind_eq_ok.mp he
      split at he
      case h_1 => contradiction
      case h_2 =>
        obtain ⟨_, _, he⟩ := bind_eq_ok.mp he
        obtain ⟨_, _, he⟩ := bind_eq_ok.mp he
        split at he
        case isTrue =>
          obtain ⟨q, _, he⟩ := bind_eq_ok.mp he
          obtain ⟨⟨_, s₁⟩, hp, he⟩ := bind_eq_ok.mp he
          obtain ⟨_, rfl, rfl, rfl⟩ := by simpa only [Prod.mk.injEq] using Except.ok.inj he
          have h₁ : ((s.setQueue state₁ { chq with enabled := false }).setStateQueue q).Inside := h.congr rfl
          exact h₁.popNext hp
        case isFalse =>
          obtain ⟨⟨_, s₁⟩, hp, he⟩ := bind_eq_ok.mp he
          obtain ⟨_, rfl, rfl, rfl⟩ := by simpa only [Prod.mk.injEq] using Except.ok.inj he
          exact h.popNext hp

theorem serve {i : Nat} (h : s.Inside) (he : s.serve i t = .ok s') : s'.Inside := by
  rw [SchedulerImpl.serve] at he
  split at he
  case isTrue => exact Except.ok.inj he ▸ h
  case isFalse =>
    split at he
    case isTrue =>
      obtain ⟨⟨state, c, p, s₁⟩, ht, he⟩ := bind_eq_ok.mp he
      exact Except.ok.inj he ▸ (h.takeNext ht).1
    case isFalse => exact Except.ok.inj he ▸ h

theorem finish {state : Ptr} (h : s.Inside) (he : s.finish state = .ok s') : s'.Inside := by
  obtain ⟨_, _, he⟩ := bind_eq_ok.mp he
  split at he
  case h_1 => contradiction
  case h_2 chq _ =>
    obtain ⟨_, _, he⟩ := bind_eq_ok.mp he
    split at he
    case isFalse => exact Except.ok.inj he ▸ h
    case isTrue =>
      obtain ⟨_, _, he⟩ := bind_eq_ok.mp he
      exact Except.ok.inj he ▸ h

-- A client gets no packet but those of the pool of its channel.
theorem advance {x : Client} {x' : Option Client} (h : s.Inside)
    (hx : ∀ p ∈ x.packet?, s.HasSlot x.channel p) (he : s.advance t wake x = .ok (x', s')) :
    s'.Inside ∧ ∀ a ∈ x', a.channel = x.channel ∧ ∀ p ∈ a.packet?, s.HasSlot x.channel p := by
  cases advance_effect he
  case took c timestamp i ch p hc hlast =>
    have hin := h c ch hc
    have hp := hin.free <| List.mem_of_getLast? hlast
    refine ⟨h.setImpl <| hin.setFree fun a ha => hin.free <| List.mem_of_mem_dropLast ha, ?_⟩
    simpa [Client.channel, Client.packet?, Client.fills, Client.processes] using ⟨ch, hc, hp⟩
  case tookNone =>
    refine ⟨h, ?_⟩
    split <;> simp [Client.channel, Client.packet?, Client.fills, Client.processes]
  case dropped c timestamp packet hn =>
    obtain ⟨h', hp⟩ := h.getNext hn
    refine ⟨h', fun a ha => ?_⟩
    obtain ⟨p, rfl, rfl⟩ := Option.map_eq_some_iff.mp ha
    exact ⟨rfl, fun p' hp' => Option.some.inj hp' ▸ hp p rfl⟩
  case freed hc hg =>
    exact ⟨h.setImpl <| (h _ _ hc).giveFree hg,
      by simp [Client.channel, Client.packet?, Client.fills, Client.processes]⟩
  case logged hc =>
    exact ⟨h.setImpl <| (h _ _ hc).congr rfl rfl rfl,
      by simp [Client.channel, Client.packet?, Client.fills, Client.processes]⟩
  case pushed hp => exact ⟨h.push (hx _ rfl) hp, by simp⟩
  case released hc hg => exact ⟨h.setImpl <| (h _ _ hc).giveFree hg, by simp⟩
  case acquired hc _ =>
    refine ⟨h.setImpl <| (h _ _ hc).congr rfl rfl rfl, ?_⟩
    simpa [Client.channel, Client.packet?, Client.fills, Client.processes] using hx _ rfl
  case filled hc _ _ =>
    refine ⟨h.setImpl <| (h _ _ hc).congr rfl rfl rfl, ?_⟩
    simpa [Client.channel, Client.packet?, Client.fills, Client.processes] using hx _ rfl
  case processed hc _ =>
    refine ⟨h.setImpl <| (h _ _ hc).congr rfl rfl rfl, ?_⟩
    simpa [Client.channel, Client.packet?, Client.fills, Client.processes] using hx _ rfl

end Inside
end SchedulerImpl

end PipeRT
