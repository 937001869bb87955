import PipeRT.Scheduler.Jobs

open Heap

namespace PipeRT.SchedulerImpl

variable {s s' : SchedulerImpl} {c : ChannelId} {ch ch' : ChannelImpl} {p : Slot} {wake : Option Nat}

-- The invariant of a scheduler and its channels between two critical sections.
structure WF (s : SchedulerImpl) : Prop extends Tracks s where
  sorted     : ∀ c ch, s.impls c = some ch → ch.Sorted
  registered : ∀ c ch, s.impls c = some ch →
               ∃ chq, s.state2channelQueues ch.singleThreadObject = some chq
  live       : ∀ c, c ∈ s.channels ↔ ∃ ch, s.impls c = some ch
  distinct   : s.channels.Nodup
  profiled   : ∀ c ch, s.impls c = some ch → s.profiler = true → ch.profileData.isSome = true

theorem Tracks.of_view (h : s.Tracks) (hv : s'.view = s.view)
    (hq : s'.state2channelQueues = s.state2channelQueues) (hs : s'.stateQueue = s.stateQueue) :
    s'.Tracks := by
  have ht : s'.stateTime = s.stateTime := by
    funext x
    simp only [stateTime, hq, hv]
  have hr (x : Ptr) : s'.Runnable x ↔ s.Runnable x := runnable_congr <| congrFun hq x
  refine ⟨⟨?_, ?_⟩, ?_, hs ▸ h.nodup, ht ▸ hs ▸ h.order⟩
  case refine_1 => simpa only [hv, hq] using h.known
  case refine_2 => simpa only [hv, hq] using h.heaps
  case refine_3 => simpa only [hs, hr] using h.mem

-- Only the state and the next job of a channel matter to the scheduler.
theorem Tracks.setImpl (h : s.Tracks) (hv : ch.view = s.view c) : (s.setImpl c ch).Tracks := by
  refine h.of_view (funext fun a => ?_) rfl rfl
  by_cases ha : a = c
  case pos => rw [ha, view_setImpl_self, hv]
  case neg => exact view_setImpl_ne _ a ha

theorem view_eq_of_impl (hc : s.impls c = some ch) : s.view c = ch.view := by
  simp [view, hc]

namespace Requeued

theorem impls (hr : Requeued s s' wake) : s'.impls = s.impls := by
  rw [hr.frame]

theorem exists_queue_iff (hr : Requeued s s' wake) (x : Ptr) :
    (∃ chq, s'.state2channelQueues x = some chq) ↔ ∃ chq, s.state2channelQueues x = some chq := by
  have := congrArg Option.isSome <| hr.enabled x
  simp only [Option.isSome_map] at this
  rw [← Option.isSome_iff_exists, ← Option.isSome_iff_exists, this]

theorem refl (s : SchedulerImpl) : Requeued s s wake :=
  ⟨rfl, fun _ => rfl, .inl ⟨rfl, List.Subset.refl _⟩⟩

-- The object of the channel itself may change afterwards.
theorem setImpl (hr : Requeued (s.setImpl c ch) s' wake) (ch' : ChannelImpl) :
    Requeued (s.setImpl c ch') (s'.setImpl c ch') wake := by
  refine ⟨?_, hr.enabled, hr.workers⟩
  rw [hr.frame]
  simp [SchedulerImpl.setImpl]

end Requeued

theorem WF.of_requeued (h : s.WF) (hc : s.impls c = some ch) (hs : ch'.Sorted)
    (hst : ch'.singleThreadObject = ch.singleThreadObject)
    (hp : ch.profileData.isSome = true → ch'.profileData.isSome = true)
    (hr : Requeued (s.setImpl c ch') s' wake) (ht : s'.Tracks) : s'.WF := by
  have himpls : ∀ a x, s'.impls a = some x → a = c ∧ x = ch' ∨ s.impls a = some x := by
    intro a x ha
    rw [hr.impls] at ha
    by_cases hac : a = c
    case pos =>
      subst hac
      simp at ha
      exact .inl ⟨rfl, ha.symm⟩
    case neg => exact .inr <| setImpl_impls_ne hac ▸ ha
  refine ⟨ht, fun a x ha => ?_, fun a x ha => ?_, fun a => ?_, ?_, fun a x ha hprof => ?_⟩
  case refine_1 =>
    obtain ⟨_, rfl⟩ | ha := himpls a x ha
    · exact hs
    · exact h.sorted a x ha
  case refine_2 =>
    rw [hr.exists_queue_iff]
    obtain ⟨_, rfl⟩ | ha := himpls a x ha
    · exact hst ▸ h.registered c ch hc
    · exact h.registered a x ha
  case refine_3 =>
    rw [hr.impls, hr.frame, setImpl_channels, h.live]
    by_cases hac : a = c
    case pos => simp [hac, hc]
    case neg => rw [setImpl_impls_ne hac]
  case refine_4 =>
    rw [hr.frame]
    exact h.distinct
  case refine_5 =>
    rw [hr.frame] at hprof
    obtain ⟨_, rfl⟩ | ha := himpls a x ha
    · exact hp <| h.profiled c ch hc hprof
    · exact h.profiled a x ha hprof

theorem view_congr (hs : ch'.isScheduled = ch.isScheduled)
    (hst : ch'.singleThreadObject = ch.singleThreadObject)
    (hq : ch'.queuedPackets = ch.queuedPackets)
    (ht : ∀ p ∈ ch.queuedPackets.heap, ch'.timestamp p = ch.timestamp p) : ch'.view = ch.view := by
  rw [ChannelImpl.view, ChannelImpl.view, hs, hst, hq]
  cases hf : ch.queuedPackets.front? with
  | none     => rfl
  | some top => simp [ht top <| List.mem_of_head? hf]

theorem channel_view_of_front (hs : ch.isScheduled = true) (hf : ch.queuedPackets.front? = some p) :
    ch.view = some (ch.singleThreadObject, ch.timestamp p) := by
  simp [ChannelImpl.view, hs, hf]

theorem channel_view_of_empty (hf : ch.queuedPackets.front? = none) : ch.view = none := by
  simp [ChannelImpl.view, hf]

theorem channel_view_of_polled (hs : ch.isScheduled = false) : ch.view = none := by
  simp [ChannelImpl.view, hs]

theorem push_spec (h : s.WF) (hc : s.impls c = some ch)
    (hroom : ch.queuedPackets.size < ch.capacity) (hp : p ∉ ch.queuedPackets.heap)
    (ht : ch.timestamp p < kMaxTime) (wake : Nat) :
    ∃ s' q, s.push c p wake = .ok s' ∧ s'.WF ∧ q.heap.Perm (p :: ch.queuedPackets.heap) ∧
      Requeued (s.setImpl c (ch.setQueued q)) s' (some wake) := by
  obtain ⟨q, hq, hholds, _, hsorted⟩ := ch.enqueue_spec (h.sorted c ch hc) hp ht
  -- It is enough that the scheduler comes to an end with `Tracks`.
  suffices hsuff : ∃ s', s.push c p wake = .ok s' ∧ s'.Tracks ∧
      Requeued (s.setImpl c (ch.setQueued q)) s' (some wake) by
    obtain ⟨s', hs', ht, hr⟩ := hsuff
    exact ⟨s', q, hs', h.of_requeued hc hsorted rfl id hr ht, hholds.perm, hr⟩
  have hview := view_eq_of_impl hc
  by_cases hs : ch.isScheduled = true
  case neg =>
    have hs := Bool.eq_false_iff.mpr hs
    refine ⟨s.setImpl c (ch.setQueued q), ?_, h.toTracks.setImpl ?_, .refl _⟩
    · by_cases hn : ch.queuedPackets.heap = []
      case pos => simp [push, deref_eq hc, hroom, hq, hs, hn]
      case neg =>
        obtain ⟨top, htop⟩ := exists_front hn
        simp [push, deref_eq hc, hroom, hq, hs, hn, ChannelImpl.peekNext, htop]
    · rw [hview, channel_view_of_polled hs, channel_view_of_polled]
      exact hs
  case pos =>
    obtain ⟨top', htop'⟩ := exists_front <| List.ne_nil_of_mem <|
      hholds.perm.mem_iff.mpr (List.mem_cons_self ..)
    have hview' : (ch.setQueued q).view = some (ch.singleThreadObject, ch.timestamp top') :=
      channel_view_of_front hs htop'
    have htop'_lt : ch.timestamp top' < kMaxTime := hsorted.below top' <| List.mem_of_head? htop'
    by_cases hn : ch.queuedPackets.heap = []
    case pos =>
      obtain ⟨chq, hchq⟩ := h.registered c ch hc
      have hnone : s.view c = none :=
        hview.trans <| channel_view_of_empty <| by simp [SteadyHeap.front?, hn]
      obtain ⟨s', hs', ht, hr⟩ := jobsArrived_spec h.toTracks hnone hview' hchq htop'_lt wake
      refine ⟨s', ?_, ht, hr⟩
      simpa [push, deref_eq hc, hroom, hq, hs, hn, ChannelImpl.peekNext, htop', htop'_lt] using hs'
    case neg =>
      obtain ⟨top, htop⟩ := exists_front hn
      have htopm := List.mem_of_head? htop
      have hsome := hview.trans <| channel_view_of_front hs htop
      by_cases hlt : ch.timestamp top' < ch.timestamp top
      case pos =>
        have hmax : ch.timestamp top ≠ kMaxTime := ne_of_lt <| (h.sorted c ch hc).below top htopm
        obtain ⟨s', hs', ht, hr⟩ := jobsUpdated_spec h.toTracks hsome hview' htop'_lt true wake
        refine ⟨s', ?_, ht, hr⟩
        simpa [push, deref_eq hc, hroom, hq, hs, hn, ChannelImpl.peekNext, htop, htop', hlt, hmax]
          using hs'
      case neg =>
        -- The next job has the time of the one before, so that the scheduler is not told.
        have heq := le_antisymm (hholds.front_le htop' <| List.mem_cons_of_mem _ htopm)
          (not_lt.mp hlt)
        refine ⟨s.setImpl c (ch.setQueued q), ?_, h.toTracks.setImpl ?_, .refl _⟩
        · simp [push, deref_eq hc, hroom, hq, hs, hn, ChannelImpl.peekNext, htop, htop', hlt]
        · rw [hview', hsome, heq]

theorem unqueue_spec {rest : List Slot} (h : s.WF) (hc : s.impls c = some ch)
    (hsize : ch.queuedPackets.size ≤ ch.capacity) (hf : ch.queuedPackets.heap = p :: rest) :
    ∃ s' q, s.unqueue c = .ok (p, s') ∧ s'.WF ∧ q.heap.Perm rest ∧
      Requeued (s.setImpl c (ch.setQueued q)) s' none := by
  obtain ⟨q, hq, hholds, _, hsorted⟩ := ch.dequeue_spec (h.sorted c ch hc) hf
  suffices hsuff : ∃ s', s.unqueue c = .ok (p, s') ∧ s'.Tracks ∧
      Requeued (s.setImpl c (ch.setQueued q)) s' none by
    obtain ⟨s', hs', ht, hr⟩ := hsuff
    exact ⟨s', q, hs', h.of_requeued hc hsorted rfl id hr ht, hholds.perm, hr⟩
  have hview := view_eq_of_impl hc
  have hfront : ch.queuedPackets.front? = some p := by simp [SteadyHeap.front?, hf]
  by_cases hs : ch.isScheduled = true
  case neg =>
    have hs := Bool.eq_false_iff.mpr hs
    refine ⟨s.setImpl c (ch.setQueued q), ?_, h.toTracks.setImpl ?_, .refl _⟩
    · simp [unqueue, deref_eq hc, hsize, hfront, hq, hs]
    · rw [hview, channel_view_of_polled hs, channel_view_of_polled]
      exact hs
  case pos =>
    have hsome := hview.trans <| channel_view_of_front hs hfront
    by_cases hn : q.heap = []
    case pos =>
      have hnone : (ch.setQueued q).view = none :=
        channel_view_of_empty <| by simp [SteadyHeap.front?, hn]
      obtain ⟨s', hs', ht, hr⟩ := jobsDropped_spec h.toTracks hsome hnone rfl
      refine ⟨s', ?_, ht, hr⟩
      simp [unqueue, deref_eq hc, hsize, hfront, hq, hs, hn, hs']
    case neg =>
      obtain ⟨top', htop'⟩ := exists_front hn
      have htopm := hholds.perm.mem_iff.mp <| List.mem_of_head? htop'
      -- The packets in the queue are distinct, so that the next one is not the one that left.
      have hne : top' ≠ p := fun heq => by
        have hnd := (h.sorted c ch hc).nodup
        rw [hf] at hnd
        exact (List.nodup_cons.mp hnd).1 (heq ▸ htopm)
      have hsome' : (ch.setQueued q).view = some (ch.singleThreadObject, ch.timestamp top') :=
        channel_view_of_front hs htop'
      obtain ⟨s', hs', ht, hr⟩ := jobsUpdated_spec h.toTracks hsome hsome'
        (hsorted.below top' <| List.mem_of_head? htop') false 0
      refine ⟨s', ?_, ht, hr⟩
      simp [unqueue, deref_eq hc, hsize, hfront, hq, hs, hn, htop', hne, hs']

-- Other data of a channel may change without the scheduler taking notice.
theorem WF.setImpl (h : s.WF) (hc : s.impls c = some ch) (hs : ch'.Sorted)
    (hst : ch'.singleThreadObject = ch.singleThreadObject)
    (hp : ch.profileData.isSome = true → ch'.profileData.isSome = true) (hv : ch'.view = ch.view) :
    (s.setImpl c ch').WF :=
  have hr : Requeued (s.setImpl c ch') (s.setImpl c ch') none := .refl _
  h.of_requeued hc hs hst hp hr <| h.toTracks.setImpl <| hv.trans (view_eq_of_impl hc).symm

end PipeRT.SchedulerImpl

namespace PipeRT.ChannelImpl

-- The channel after `PopNext` took the packet `p` at time `t`, and left `q` in the queue.
def popped (ch : ChannelImpl) (q : SteadyHeap Slot) (p : Slot) (droppingPacket : Bool) (t : Time) :
    ChannelImpl :=
  if droppingPacket then
    ch.setQueued q
  else
    ((ch.setQueued q).stamp p t).log .retrieved (t - ch.timestamp p)

variable {ch : ChannelImpl} {q : SteadyHeap Slot} {p : Slot} {droppingPacket : Bool} {t : Time}

@[simp]
theorem popped_queuedPackets : (ch.popped q p droppingPacket t).queuedPackets = q := by
  cases droppingPacket <;> rfl

@[simp]
theorem popped_freePackets : (ch.popped q p droppingPacket t).freePackets = ch.freePackets := by
  cases droppingPacket <;> rfl

@[simp]
theorem popped_capacity : (ch.popped q p droppingPacket t).capacity = ch.capacity := by
  cases droppingPacket <;> rfl

@[simp]
theorem popped_isScheduled : (ch.popped q p droppingPacket t).isScheduled = ch.isScheduled := by
  cases droppingPacket <;> rfl

@[simp]
theorem popped_timestamp : (ch.popped q p droppingPacket t).timestamp = ch.timestamp := by
  cases droppingPacket <;> simp [popped]

@[simp]
theorem popped_singleThreadObject :
    (ch.popped q p droppingPacket t).singleThreadObject = ch.singleThreadObject := by
  cases droppingPacket <;> rfl

@[simp]
theorem popped_constructed : (ch.popped q p droppingPacket t).constructed = ch.constructed := by
  cases droppingPacket <;> rfl

@[simp]
theorem popped_destructed : (ch.popped q p droppingPacket t).destructed = ch.destructed := by
  cases droppingPacket <;> rfl

end PipeRT.ChannelImpl

namespace PipeRT.SchedulerImpl

variable {s : SchedulerImpl} {c : ChannelId} {ch : ChannelImpl} {p : Slot} {t : Time}

theorem popNext_spec {rest : List Slot} (h : s.WF) (hc : s.impls c = some ch)
    (hsize : ch.queuedPackets.size ≤ ch.capacity) (hf : ch.queuedPackets.heap = p :: rest)
    (ht : ch.timestamp p ≤ t) (droppingPacket : Bool) :
    ∃ s' q, s.popNext c droppingPacket t = .ok (p, s') ∧ s'.WF ∧ q.heap.Perm rest ∧
      Requeued (s.setImpl c (ch.popped q p droppingPacket t)) s' none := by
  have ⟨s₁, q, hs₁, hwf, hperm, hr⟩ := unqueue_spec h hc hsize hf
  cases droppingPacket
  case true => exact ⟨s₁, q, by simp [popNext, hs₁], hwf, hperm, hr⟩
  case false =>
    have hc₁ : s₁.impls c = some (ch.setQueued q) := hr.impls ▸ setImpl_impls_self
    refine ⟨s₁.setImpl c (ch.popped q p false t), q, ?_, ?_, hperm, hr.setImpl _⟩
    · simp [popNext, hs₁, deref_eq hc₁, ht, ChannelImpl.popped]
    · refine hwf.setImpl hc₁ ((hwf.sorted c _ hc₁).congr (by simp) (by simp)) (by simp) ?_ ?_
      · simp [ChannelImpl.popped]
      · exact view_congr (by simp) (by simp) (by simp) (by simp)

end PipeRT.SchedulerImpl
