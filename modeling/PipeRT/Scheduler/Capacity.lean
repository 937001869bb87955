import PipeRT.Scheduler.Registration

namespace PipeRT.SchedulerImpl

-- What the operations do to the memory of the containers, whether or not it is large enough.
structure Kept (s s' : SchedulerImpl) : Prop where
  impls    : s'.impls = s.impls
  channels : s'.channels = s.channels
  heaps    : ∀ x chq chq', s.state2channelQueues x = some chq → s'.state2channelQueues x = some chq' →
             chq.heap.Kept chq'.heap
  queue    : s.stateQueue.Kept s'.stateQueue

namespace Kept

variable {s s' s₁ : SchedulerImpl} {state : Ptr} {c : ChannelId} {chq : EnabledChannelHeap}
variable {heap : SteadyHeap ChannelId} {wake : Nat}

theorem refl (s : SchedulerImpl) : s.Kept s where
  impls                   := rfl
  channels                := rfl
  heaps x chq chq' hx hx' := by
    obtain rfl := Option.some.inj <| hx.symm.trans hx'
    exact fun _ => rfl
  queue _                 := rfl

theorem notifyOne (hk : s.Kept s') (wake : Nat) : s.Kept (s'.notifyOne wake) :=
  ⟨hk.impls, hk.channels, hk.heaps, hk.queue⟩

theorem setQueue (hs : (s.subscript state).heap.Kept heap) (enabled : Bool) :
    s.Kept (s.setQueue state { enabled, heap }) where
  impls                   := rfl
  channels                := rfl
  heaps x chq chq' hx hx' := by
    by_cases hxs : x = state
    case pos =>
      subst hxs
      obtain rfl := Option.some.inj <| setQueue_queues_self.symm.trans hx'
      rwa [subscript_eq hx] at hs
    case neg =>
      rw [setQueue_queues_ne hxs] at hx'
      obtain rfl := Option.some.inj <| hx.symm.trans hx'
      exact fun _ => rfl
  queue _                 := rfl

theorem pushState (hk : s.Kept s₁) (hq : s.stateQueue.Shrunk s₁.stateQueue)
    (hp : s₁.pushState state = .ok s') : s.Kept s' := by
  have ⟨q, hq', hp⟩ := bind_eq_ok.mp hp
  obtain rfl := Except.ok.inj hp
  exact ⟨hk.impls, hk.channels, hk.heaps, hq.trans <| SteadyHeap.pushHeap_kept hq'⟩

theorem forcePopState (hk : s.Kept s₁) (hq : s₁.stateQueue = s.stateQueue)
    (hp : s₁.forcePopState state = .ok s') : s.Kept s' ∧ s.stateQueue.Shrunk s'.stateQueue := by
  have ⟨q, hq', hp⟩ := bind_eq_ok.mp hp
  have ⟨_, _, hp⟩ := bind_eq_ok.mp hp
  obtain rfl := Except.ok.inj hp
  have hs := SteadyHeap.forcePopHeap_shrunk (hq ▸ hq')
  exact ⟨⟨hk.impls, hk.channels, hk.heaps, hs.kept⟩, hs⟩

end Kept

variable {s s' : SchedulerImpl} {c : ChannelId} {wake : Nat}

-- Both branches go on with `f`.
theorem exists_of_ite_bind {α β : Type} {p : Prop} [Decidable p] {x x' : Except Fault α}
    {f : α → Except Fault β} {b : β} (h : (if p then x >>= f else x' >>= f) = .ok b) :
    ∃ a, f a = .ok b := by
  split at h
  all_goals
    have ⟨a, _, h⟩ := bind_eq_ok.mp h
    exact ⟨a, h⟩

theorem jobsArrived_kept (h : s.jobsArrived c wake = .ok s') : s.Kept s' := by
  obtain ⟨ch, _, h⟩ := bind_eq_ok.mp h
  obtain ⟨_, _, h⟩ := bind_eq_ok.mp h
  obtain ⟨earliest, h⟩ := exists_of_ite_bind h
  obtain ⟨heap, hheap, h⟩ := bind_eq_ok.mp h
  have hk := Kept.setQueue (SteadyHeap.pushHeap_kept hheap)
    (s.subscript ch.singleThreadObject).enabled
  have hq : s.stateQueue.Shrunk (s.setQueue ch.singleThreadObject
      { s.subscript ch.singleThreadObject with heap }).stateQueue := ⟨rfl, Nat.le_refl _⟩
  split at h
  case isFalse => exact Except.ok.inj h ▸ hk
  case isTrue =>
    obtain ⟨next, _, h⟩ := bind_eq_ok.mp h
    split at h
    case isFalse => exact Except.ok.inj h ▸ hk
    case isTrue =>
      split at h
      case isTrue =>
        obtain ⟨s₁, hpop, h⟩ := bind_eq_ok.mp h
        obtain ⟨s₂, hpush, h⟩ := bind_eq_ok.mp h
        obtain ⟨hk₁, hq₁⟩ := hk.forcePopState rfl hpop
        exact Except.ok.inj h ▸ (hk₁.pushState hq₁ hpush).notifyOne wake
      case isFalse =>
        obtain ⟨_, _, h⟩ := bind_eq_ok.mp h
        obtain ⟨s₂, hpush, h⟩ := bind_eq_ok.mp h
        exact Except.ok.inj h ▸ (hk.pushState hq hpush).notifyOne wake

theorem jobsUpdated_kept {wasPush : Bool} (h : s.jobsUpdated c wasPush wake = .ok s') : s.Kept s' := by
  obtain ⟨ch, _, h⟩ := bind_eq_ok.mp h
  obtain ⟨_, _, h⟩ := bind_eq_ok.mp h
  obtain ⟨_, _, h⟩ := bind_eq_ok.mp h
  obtain ⟨earliest, _, h⟩ := bind_eq_ok.mp h
  obtain ⟨heap₁, hheap₁, h⟩ := bind_eq_ok.mp h
  obtain ⟨heap, hheap, h⟩ := bind_eq_ok.mp h
  have hk := Kept.setQueue
    ((SteadyHeap.forcePopHeap_shrunk hheap₁).trans <| SteadyHeap.pushHeap_kept hheap)
    (s.subscript ch.singleThreadObject).enabled
  split at h
  case isFalse => exact Except.ok.inj h ▸ hk
  case isTrue =>
    obtain ⟨next, _, h⟩ := bind_eq_ok.mp h
    split at h
    case isFalse => exact Except.ok.inj h ▸ hk
    case isTrue =>
      obtain ⟨s₁, hpop, h⟩ := bind_eq_ok.mp h
      obtain ⟨s₂, hpush, h⟩ := bind_eq_ok.mp h
      obtain ⟨hk₁, hq₁⟩ := hk.forcePopState rfl hpop
      have hk₂ := hk₁.pushState hq₁ hpush
      cases wasPush
      case false => exact Except.ok.inj h ▸ hk₂
      case true  => exact Except.ok.inj h ▸ hk₂.notifyOne wake

theorem jobsDropped_kept (h : s.jobsDropped c = .ok s') : s.Kept s' := by
  obtain ⟨ch, _, h⟩ := bind_eq_ok.mp h
  obtain ⟨_, _, h⟩ := bind_eq_ok.mp h
  obtain ⟨_, _, h⟩ := bind_eq_ok.mp h
  obtain ⟨heap, hheap, h⟩ := bind_eq_ok.mp h
  have hk := Kept.setQueue (SteadyHeap.forcePopHeap_shrunk hheap).kept
    (s.subscript ch.singleThreadObject).enabled
  split at h
  case isFalse => exact Except.ok.inj h ▸ hk
  case isTrue =>
    obtain ⟨s₁, hpop, h⟩ := bind_eq_ok.mp h
    obtain ⟨hk₁, hq₁⟩ := hk.forcePopState rfl hpop
    split at h
    case isFalse => exact Except.ok.inj h ▸ hk₁
    case isTrue  => exact hk₁.pushState hq₁ h

end PipeRT.SchedulerImpl

namespace PipeRT

structure ChannelImpl.Kept (ch ch' : ChannelImpl) : Prop where
  capacity : ch'.capacity = ch.capacity
  queue    : ch.queuedPackets.Kept ch'.queuedPackets

theorem ChannelImpl.Kept.of_eq {ch ch' : ChannelImpl} (hc : ch'.capacity = ch.capacity)
    (hq : ch'.queuedPackets = ch.queuedPackets) : ch.Kept ch' :=
  ⟨hc, hq ▸ fun _ => rfl⟩

-- The same for a step of the whole system, which may change a channel as well.
structure SchedulerImpl.Contained (s s' : SchedulerImpl) : Prop where
  live     : ∀ c, (s'.impls c).isSome = (s.impls c).isSome
  channels : s'.channels = s.channels
  packets  : ∀ c ch ch', s.impls c = some ch → s'.impls c = some ch' → ch.Kept ch'
  heaps    : ∀ x chq chq', s.state2channelQueues x = some chq →
             s'.state2channelQueues x = some chq' → chq.heap.Kept chq'.heap
  queue    : s.stateQueue.Kept s'.stateQueue

namespace SchedulerImpl.Contained

variable {s s' s₁ : SchedulerImpl} {c : ChannelId} {ch ch' : ChannelImpl} {state : Ptr}
variable {chq : EnabledChannelHeap} {q : SteadyHeap Ptr} {t : Time}

theorem of_kept (hk : s.Kept s') : s.Contained s' where
  live a   := by rw [hk.impls]
  channels := hk.channels
  packets a x x' hx hx' := by
    obtain rfl := Option.some.inj <| hx.symm.trans <| hk.impls ▸ hx'
    exact .of_eq rfl rfl
  heaps    := hk.heaps
  queue    := hk.queue

theorem refl (s : SchedulerImpl) : s.Contained s :=
  .of_kept <| .refl s

theorem isSome_setImpl (hc : s.impls c = some ch) (a : ChannelId) :
    ((s.setImpl c ch').impls a).isSome = (s.impls a).isSome := by
  by_cases hac : a = c
  case pos => simp [hac, hc, setImpl_impls_self]
  case neg => rw [setImpl_impls_ne hac]

-- A channel changes before the scheduler is told.
theorem setImpl (hc : s.impls c = some ch) (hch : ch.Kept ch') (hk : (s.setImpl c ch').Kept s') :
    s.Contained s' where
  live a   := hk.impls ▸ isSome_setImpl hc a
  channels := hk.channels
  packets a x x' hx hx' := by
    rw [hk.impls] at hx'
    by_cases hac : a = c
    case pos =>
      subst hac
      obtain rfl := Option.some.inj <| hc.symm.trans hx
      obtain rfl := Option.some.inj <| setImpl_impls_self.symm.trans hx'
      exact hch
    case neg =>
      rw [setImpl_impls_ne hac] at hx'
      obtain rfl := Option.some.inj <| hx.symm.trans hx'
      exact .of_eq rfl rfl
  heaps    := hk.heaps
  queue    := hk.queue

-- A channel changes afterwards, except for its queue.
theorem setImpl_right (h : s.Contained s₁) (hc : s₁.impls c = some ch)
    (hcap : ch'.capacity = ch.capacity) (hq : ch'.queuedPackets = ch.queuedPackets) :
    s.Contained (s₁.setImpl c ch') where
  live a   := (isSome_setImpl hc a).trans <| h.live a
  channels := h.channels
  packets a x x' hx hx' := by
    by_cases hac : a = c
    case pos =>
      subst hac
      obtain rfl := Option.some.inj <| setImpl_impls_self.symm.trans hx'
      have hk := h.packets a x ch hx hc
      exact ⟨hcap.trans hk.capacity, hq ▸ hk.queue⟩
    case neg =>
      rw [setImpl_impls_ne hac] at hx'
      exact h.packets a x x' hx hx'
  heaps    := h.heaps
  queue    := h.queue

-- A state is disabled first.
theorem disable (hs : s.state2channelQueues state = some chq) (hq : s.stateQueue.Shrunk q)
    (h : Contained ((s.setQueue state { chq with enabled := false }).setStateQueue q) s') :
    s.Contained s' where
  live     := h.live
  channels := h.channels
  packets  := h.packets
  heaps x chq₁ chq' hx hx' := by
    by_cases hxs : x = state
    case pos =>
      subst hxs
      obtain rfl := Option.some.inj <| hs.symm.trans hx
      exact h.heaps x { chq with enabled := false } chq' setQueue_queues_self hx'
    case neg => exact h.heaps x chq₁ chq' ((setQueue_queues_ne hxs).trans hx) hx'
  queue    := hq.trans h.queue

-- A change of a channel of which the scheduler is not told.
theorem update (hc : s.impls c = some ch) (hcap : ch'.capacity = ch.capacity)
    (hq : ch'.queuedPackets = ch.queuedPackets) : s.Contained (s.setImpl c ch') :=
  (refl s).setImpl_right hc hcap hq

theorem setWorker (h : s.Contained s') (i : Nat) (w : Worker) : s.Contained (s'.setWorker i w) :=
  ⟨h.live, h.channels, h.packets, h.heaps, h.queue⟩

theorem giveFree {p : Slot} (hc : s.impls c = some ch) (hcap : ch'.capacity = ch.capacity)
    (hq : ch'.queuedPackets = ch.queuedPackets) {ch₁ : ChannelImpl} (hg : ch'.giveFree p = .ok ch₁) :
    s.Contained (s.setImpl c ch₁) := by
  obtain ⟨_, _, rfl⟩ := ChannelImpl.giveFree_eq_ok hg
  exact .update hc hcap hq

end SchedulerImpl.Contained

namespace SchedulerImpl

variable {s s' : SchedulerImpl} {c : ChannelId} {p : Slot} {t : Time} {wake : Nat}

theorem push_contained (h : s.push c p wake = .ok s') : s.Contained s' := by
  obtain ⟨ch, hd, h⟩ := bind_eq_ok.mp h
  obtain ⟨_, _, h⟩ := bind_eq_ok.mp h
  obtain ⟨earliest, h⟩ := exists_of_ite_bind h
  obtain ⟨q, hq, h⟩ := bind_eq_ok.mp h
  have hch : ch.Kept (ch.setQueued q) := ⟨rfl, SteadyHeap.pushHeap_kept hq⟩
  have hc := impl_of_deref hd
  dsimp only at h
  split at h
  case isFalse => exact .setImpl hc hch <| Except.ok.inj h ▸ .refl _
  case isTrue =>
    obtain ⟨next, _, h⟩ := bind_eq_ok.mp h
    split at h
    case isFalse => exact .setImpl hc hch <| Except.ok.inj h ▸ .refl _
    case isTrue =>
      split at h
      case isTrue  => exact .setImpl hc hch <| jobsArrived_kept h
      case isFalse => exact .setImpl hc hch <| jobsUpdated_kept h

theorem unqueue_contained (h : s.unqueue c = .ok (p, s')) : s.Contained s' := by
  obtain ⟨ch, hd, h⟩ := bind_eq_ok.mp h
  obtain ⟨_, _, h⟩ := bind_eq_ok.mp h
  have hc := impl_of_deref hd
  split at h
  case h_1 => contradiction
  case h_2 earliest _ =>
    obtain ⟨q, hq, h⟩ := bind_eq_ok.mp h
    have hch : ch.Kept (ch.setQueued q) := ⟨rfl, (SteadyHeap.popHeap_shrunk hq).kept⟩
    split at h
    case isFalse =>
      obtain ⟨_, rfl⟩ := Prod.mk.inj (Except.ok.inj h)
      exact .setImpl hc hch (.refl _)
    case isTrue =>
      split at h
      case isTrue =>
        obtain ⟨s₁, hj, h⟩ := bind_eq_ok.mp h
        obtain ⟨_, rfl⟩ := Prod.mk.inj (Except.ok.inj h)
        exact .setImpl hc hch <| jobsDropped_kept hj
      case isFalse =>
        split at h
        case isTrue =>
          obtain ⟨s₁, hj, h⟩ := bind_eq_ok.mp h
          obtain ⟨_, rfl⟩ := Prod.mk.inj (Except.ok.inj h)
          exact .setImpl hc hch <| jobsUpdated_kept hj
        case isFalse =>
          obtain ⟨_, rfl⟩ := Prod.mk.inj (Except.ok.inj h)
          exact .setImpl hc hch (.refl _)

theorem popNext_contained {droppingPacket : Bool} (h : s.popNext c droppingPacket t = .ok (p, s')) :
    s.Contained s' := by
  obtain ⟨⟨earliest, s₁⟩, hu, h⟩ := bind_eq_ok.mp h
  have hu := unqueue_contained hu
  cases droppingPacket
  case true =>
    obtain ⟨_, rfl⟩ := Prod.mk.inj (Except.ok.inj h)
    exact hu
  case false =>
    obtain ⟨ch, hd, h⟩ := bind_eq_ok.mp h
    obtain ⟨_, _, h⟩ := bind_eq_ok.mp h
    obtain ⟨_, rfl⟩ := Prod.mk.inj (Except.ok.inj h)
    exact hu.setImpl_right (impl_of_deref hd) rfl rfl

theorem getNext_contained {droppingPacket : Bool} {packet : Option Slot}
    (h : s.getNext c droppingPacket t = .ok (packet, s')) : s.Contained s' := by
  obtain ⟨ch, _, h⟩ := bind_eq_ok.mp h
  split at h
  case isFalse =>
    obtain ⟨_, rfl⟩ := Prod.mk.inj (Except.ok.inj h)
    exact .refl _
  case isTrue =>
    obtain ⟨⟨earliest, s₁⟩, hp, h⟩ := bind_eq_ok.mp h
    obtain ⟨_, rfl⟩ := Prod.mk.inj (Except.ok.inj h)
    exact popNext_contained hp

theorem takeNext_contained {state : Ptr} (h : s.takeNext t = .ok (state, c, p, s')) :
    s.Contained s' := by
  rw [takeNext] at h
  split at h
  case h_1 => contradiction
  case h_2 state₁ _ =>
    split at h
    case h_1 => contradiction
    case h_2 chq hq =>
      obtain ⟨_, _, h⟩ := bind_eq_ok.mp h
      split at h
      case h_1 => contradiction
      case h_2 c₁ _ =>
        obtain ⟨ch, _, h⟩ := bind_eq_ok.mp h
        obtain ⟨_, _, h⟩ := bind_eq_ok.mp h
        split at h
        case isTrue =>
          obtain ⟨q, hpop, h⟩ := bind_eq_ok.mp h
          obtain ⟨⟨_, s₁⟩, hp, h⟩ := bind_eq_ok.mp h
          obtain ⟨_, h⟩ := Prod.mk.inj (Except.ok.inj h)
          obtain ⟨_, h⟩ := Prod.mk.inj h
          obtain ⟨_, rfl⟩ := Prod.mk.inj h
          exact .disable hq (SteadyHeap.popHeap_shrunk hpop) <| popNext_contained hp
        case isFalse =>
          obtain ⟨⟨_, s₁⟩, hp, h⟩ := bind_eq_ok.mp h
          obtain ⟨_, h⟩ := Prod.mk.inj (Except.ok.inj h)
          obtain ⟨_, h⟩ := Prod.mk.inj h
          obtain ⟨_, rfl⟩ := Prod.mk.inj h
          exact popNext_contained hp

theorem serve_contained {i : Nat} (h : s.serve i t = .ok s') : s.Contained s' := by
  rw [serve] at h
  split at h
  case isTrue => exact Except.ok.inj h ▸ (Contained.refl s).setWorker ..
  case isFalse =>
    split at h
    case isTrue =>
      obtain ⟨⟨state, c, p, s₁⟩, ht, h⟩ := bind_eq_ok.mp h
      exact Except.ok.inj h ▸ (takeNext_contained ht).setWorker ..
    case isFalse => exact Except.ok.inj h ▸ (Contained.refl s).setWorker ..

theorem isSome_of_finish {state : Ptr} (h : s.finish state = .ok s') :
    (s.state2channelQueues state).isSome = true := by
  obtain ⟨_, _, h⟩ := bind_eq_ok.mp h
  split at h
  case h_1 => contradiction
  case h_2 hq => exact Option.isSome_iff_exists.mpr ⟨_, hq⟩

theorem finish_contained {state : Ptr} (h : s.finish state = .ok s') : s.Contained s' := by
  obtain ⟨_, _, h⟩ := bind_eq_ok.mp h
  split at h
  case h_1 => contradiction
  case h_2 chq hq =>
    obtain ⟨_, _, h⟩ := bind_eq_ok.mp h
    have hk : s.Kept (s.setQueue state { chq with enabled := true }) :=
      .setQueue (subscript_eq hq ▸ fun _ => rfl) true
    split at h
    case isFalse => exact Except.ok.inj h ▸ .of_kept hk
    case isTrue  => exact .of_kept <| hk.pushState ⟨rfl, Nat.le_refl _⟩ h

end SchedulerImpl
end PipeRT
