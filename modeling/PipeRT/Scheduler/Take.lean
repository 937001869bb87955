import PipeRT.Scheduler.Queue

open Heap

namespace PipeRT.SchedulerImpl

variable {s s' : SchedulerImpl} {c : ChannelId} {ch : ChannelImpl} {p : Slot} {state : Ptr} {t : Time}
variable {heap : SteadyHeap ChannelId} {enabled : Bool}

-- Workers may take packets of the state.
def Enabled (s : SchedulerImpl) (state : Ptr) : Prop :=
  ∃ chq, s.state2channelQueues state = some chq ∧ chq.enabled = true

theorem Tracks.setEnabled (h : s.Tracks) (hq : s.state2channelQueues state = some { enabled, heap })
    (enabled' : Bool) :
    (s.setQueue state { enabled := enabled', heap }).TracksExcept state ∧
    (s.setQueue state { enabled := enabled', heap }).stateTime = s.stateTime := by
  have htime : (s.setQueue state { enabled := enabled', heap }).stateTime = s.stateTime := by
    funext x
    by_cases hx : x = state
    case pos => simp [stateTime, hx, hq]
    case neg => simp [stateTime, setQueue_queues_ne hx]
  refine ⟨⟨⟨fun a x u ha => ?_, fun x chq hx => ?_⟩, fun x hx => ?_, h.nodup, s.stateTime, h.order,
    fun x _ _ => congrFun htime x⟩, htime⟩
  case refine_1 =>
    obtain ⟨hex, hu⟩ := h.known a x u ha
    by_cases hx : x = state
    case pos => exact ⟨by simp [hx], hu⟩
    case neg => exact ⟨by rwa [setQueue_queues_ne hx], hu⟩
  case refine_2 =>
    by_cases hxs : x = state
    case pos =>
      subst hxs
      rw [setQueue_queues_self] at hx
      obtain rfl := Option.some.inj hx
      exact h.heaps x { enabled, heap } hq
    case neg => exact h.heaps x chq <| (setQueue_queues_ne hxs).symm.trans hx
  case refine_3 => exact (h.mem x).trans <| (runnable_congr <| setQueue_queues_ne hx).symm

theorem WF.of_tracks (h : s.WF) (ht : s'.Tracks) (hi : s'.impls = s.impls)
    (hch : s'.channels = s.channels) (hp : s'.profiler = s.profiler)
    (hq : ∀ x chq, s.state2channelQueues x = some chq →
      ∃ chq, s'.state2channelQueues x = some chq) : s'.WF where
  toTracks := ht
  sorted := hi ▸ h.sorted
  registered a x ha := by
    have ⟨chq, hchq⟩ := h.registered a x (hi ▸ ha)
    exact hq _ chq hchq
  live := by simpa only [hi, hch] using h.live
  distinct := hch ▸ h.distinct
  profiled := by simpa only [hi, hp] using h.profiled

theorem exists_queue_setQueue {chq : EnabledChannelHeap} (x : Ptr) (chq' : EnabledChannelHeap)
    (hx : s.state2channelQueues x = some chq') :
    ∃ chq', (s.setQueue state chq).state2channelQueues x = some chq' := by
  by_cases hxs : x = state
  case pos => simp [hxs]
  case neg => exact ⟨chq', (setQueue_queues_ne hxs).trans hx⟩

-- A worker takes the state on top of the queue.
theorem disable_spec {rest : List Ptr} (h : s.WF)
    (hq : s.state2channelQueues state = some { enabled, heap })
    (hs : s.stateQueue.heap = state :: rest) :
    ∃ q, s.stateQueue.popHeap (s.setQueue state { enabled := false, heap }).stateOrdering = .ok q ∧
      q.heap.Perm rest ∧
      ((s.setQueue state { enabled := false, heap }).setStateQueue q).WF := by
  have ⟨hex, htime⟩ := h.setEnabled hq false
  have hnd := List.nodup_cons.mp (hs ▸ h.nodup)
  have hrest : ∀ x ∈ rest, x ≠ state ∧ x ∈ s.stateQueue.heap := fun x hx =>
    ⟨fun hxs => hnd.1 (hxs ▸ hx), hs ▸ List.mem_cons_of_mem _ hx⟩
  have ⟨q, hpop, hholds, _⟩ := SteadyHeap.popHeap_spec hs (htime ▸ h.order.holed 0)
    (stateOrdering_agrees hex.toTracksHeaps fun x hx =>
      (hex.mem x (hrest x hx).1).mp (hrest x hx).2)
  refine ⟨q, hpop, hholds.perm, h.of_tracks ⟨⟨hex.known, hex.heaps⟩, fun x => ?_, ?_, hholds.order⟩
    rfl rfl rfl exists_queue_setQueue⟩
  case refine_1 =>
    refine hholds.perm.mem_iff.trans ?_
    by_cases hx : x = state
    case pos => simp [hx, hnd.1, Runnable]
    case neg =>
      have hmem := hex.mem x hx
      rw [setQueue_stateQueue, hs, List.mem_cons, or_iff_right hx] at hmem
      exact hmem
  case refine_2 => exact hholds.perm.nodup_iff.mpr hnd.2

theorem front_le_of_mem (h : s.WF) (hc : s.impls c = some ch) (hs : ch.isScheduled = true)
    (hp : p ∈ ch.queuedPackets.heap) :
    (∃ u, s.view c = some (ch.singleThreadObject, u)) ∧ s.view.time c ≤ ch.timestamp p := by
  have ⟨top, htop⟩ := exists_front <| List.ne_nil_of_mem hp
  have hv := (view_eq_of_impl hc).trans <| channel_view_of_front hs htop
  refine ⟨⟨_, hv⟩, ?_⟩
  rw [View.time_eq hv]
  exact (h.sorted c ch hc).order.root_le htop hp

-- What is on top of the three heaps is not later than anything in a queue of an enabled state.
theorem WF.least {chq : EnabledChannelHeap} (h : s.WF) (hs : s.stateQueue.front? = some state)
    (hq : s.state2channelQueues state = some chq) (htop : chq.heap.front? = some c)
    (hc : s.impls c = some ch) (hsc : ch.isScheduled = true)
    (hp : ch.queuedPackets.front? = some p) {c' : ChannelId}
    {ch' : ChannelImpl} {p' : Slot} (hc' : s.impls c' = some ch') (hsc' : ch'.isScheduled = true)
    (hen : s.Enabled ch'.singleThreadObject) (hp' : p' ∈ ch'.queuedPackets.heap) :
    ch.timestamp p ≤ ch'.timestamp p' := by
  have ⟨⟨u, hv⟩, hle⟩ := front_le_of_mem h hc' hsc' hp'
  have ⟨chq', hq', hen'⟩ := hen
  have hmem := ((h.heaps _ chq' hq').mem c').mpr ⟨u, hv⟩
  have hn := List.ne_nil_of_mem hmem
  have ⟨top', htop'⟩ := exists_front hn
  have hstate := (h.mem ch'.singleThreadObject).mpr ⟨chq', hq', hen', hn⟩
  calc ch.timestamp p
    _ = s.view.time c := by
      rw [View.time_eq <| (view_eq_of_impl hc).trans <| channel_view_of_front hsc hp]
    _ = s.stateTime state := (stateTime_eq hq htop).symm
    _ ≤ s.stateTime ch'.singleThreadObject := h.order.root_le hs hstate
    _ = s.view.time top' := stateTime_eq hq' htop'
    _ ≤ s.view.time c' := (h.heaps _ chq' hq').order.root_le htop' hmem
    _ ≤ ch'.timestamp p' := hle

-- What the heaps have on top.
structure Next (s : SchedulerImpl) (state : Ptr) (c : ChannelId) (ch : ChannelImpl) (p : Slot) :
    Prop where
  front     : s.stateQueue.front? = some state
  enabled   : s.Enabled state
  impl      : s.impls c = some ch
  scheduled : ch.isScheduled = true
  state_eq  : ch.singleThreadObject = state
  packet    : ch.queuedPackets.front? = some p
  least     : ∀ c' ch' p', s.impls c' = some ch' → ch'.isScheduled = true →
              s.Enabled ch'.singleThreadObject → p' ∈ ch'.queuedPackets.heap →
              ch.timestamp p ≤ ch'.timestamp p'

-- What a worker has done with them once it has taken the packet.
structure Taken (s s' : SchedulerImpl) (state : Ptr) (c : ChannelId) (ch' : ChannelImpl) : Prop where
  frame   : s' = { s with impls := Function.update s.impls c (some ch'),
                          stateQueue := s'.stateQueue,
                          state2channelQueues := s'.state2channelQueues }
  enabled : ∀ x, (s'.state2channelQueues x).map (·.enabled) =
                 if x = state ∧ state ≠ nullptr then some false
                 else (s.state2channelQueues x).map (·.enabled)
  queue   : s'.stateQueue.heap ⊆ s.stateQueue.heap

theorem takeNext_spec (h : s.WF) (hn : s.stateQueue.heap ≠ [])
    (hsize : ∀ c ch, s.impls c = some ch → ch.queuedPackets.size ≤ ch.capacity)
    (ht : ∀ c ch, s.impls c = some ch → ∀ p ∈ ch.queuedPackets.heap, ch.timestamp p ≤ t) :
    ∃ state c ch p rest q s', s.Next state c ch p ∧ ch.queuedPackets.heap = p :: rest ∧
      s.takeNext t = .ok (state, c, p, s') ∧ s'.WF ∧ q.heap.Perm rest ∧
      s.Taken s' state c (ch.popped q p false t) := by
  obtain ⟨state, hstate⟩ : ∃ state, s.stateQueue.front? = some state :=
    Option.isSome_iff_exists.mp <| List.isSome_head?.mpr hn
  have hstatem := List.mem_of_head? hstate
  obtain ⟨⟨enabled, heap⟩, hq, hen, hnh⟩ := (h.mem state).mp hstatem
  simp only at hen hnh
  subst hen
  obtain ⟨c, htop⟩ := exists_front hnh
  obtain ⟨_, hv⟩ := ((h.heaps state _ hq).mem c).mp <| List.mem_of_head? htop
  obtain ⟨ch, p, hc, hs, hst, hp, _⟩ := exists_impl_of_view hv
  obtain ⟨rest, hf⟩ : ∃ rest, ch.queuedPackets.heap = p :: rest := List.head?_eq_some_iff.mp hp
  have hnext : s.Next state c ch p := ⟨hstate, ⟨_, hq, rfl⟩, hc, hs, hst, hp,
    fun _ _ _ hc' hs' hen hp' => h.least hstate hq htop hc hs hp hc' hs' hen hp'⟩
  have hpt := ht c ch hc p <| List.mem_of_head? hp
  by_cases hnull : state = nullptr
  case pos =>
    obtain ⟨s', q, hs', hwf, hperm, hr⟩ := popNext_spec h hc (hsize c ch hc) hf hpt false
    refine ⟨state, c, ch, p, rest, q, s', hnext, hf, ?_, hwf, hperm, ?_⟩
    · subst hnull
      simp [takeNext, hstate, hq, htop, deref_eq hc, hst, hs']
    · obtain ⟨hw, hqs⟩ := hr.workers.resolve_right (by simp)
      refine ⟨?_, fun x => ?_, hqs⟩
      · rw [hr.frame, hw]
        rfl
      · simpa [hnull] using hr.enabled x
  case neg =>
    obtain ⟨rest', hrest⟩ : ∃ rest', s.stateQueue.heap = state :: rest' :=
      List.head?_eq_some_iff.mp hstate
    obtain ⟨q', hpop, hperm', hwf₁⟩ := disable_spec h hq hrest
    obtain ⟨s', q, hs', hwf, hperm, hr⟩ := popNext_spec hwf₁ hc (hsize c ch hc) hf hpt false
    refine ⟨state, c, ch, p, rest, q, s', hnext, hf, ?_, hwf, hperm, ?_⟩
    · simp [takeNext, hstate, hq, htop, deref_eq hc, hst, hnull, hpop, hs']
    · obtain ⟨hw, hqs⟩ := hr.workers.resolve_right (by simp)
      refine ⟨?_, fun x => (hr.enabled x).trans ?_, fun x hx => ?_⟩
      · rw [hr.frame, hw]
        rfl
      · by_cases hx : x = state
        case pos => simp [hx, hnull]
        case neg => simp [hx, setQueue_queues_ne]
      · exact hrest ▸ List.mem_cons_of_mem _ (hperm'.subset <| hqs hx)

-- What a worker does once it comes back from a packet of a state.
structure Finished (s s' : SchedulerImpl) (state : Ptr) : Prop where
  frame   : s' = { s with stateQueue := s'.stateQueue,
                          state2channelQueues := s'.state2channelQueues }
  enabled : ∀ x, (s'.state2channelQueues x).map (·.enabled) =
                 if x = state then some true else (s.state2channelQueues x).map (·.enabled)
  queue   : s'.stateQueue.heap ⊆ state :: s.stateQueue.heap

theorem finish_spec (h : s.WF) (hq : s.state2channelQueues state = some { enabled := false, heap }) :
    ∃ s', s.finish state = .ok s' ∧ s'.WF ∧ s.Finished s' state := by
  obtain ⟨hex, htime⟩ := h.setEnabled hq true
  have hm : state ∉ s.stateQueue.heap := fun hm => by
    simpa using ((runnable_iff hq).mp <| (h.mem state).mp hm).1
  have henabled (x : Ptr) :
      ((s.setQueue state { enabled := true, heap }).state2channelQueues x).map (·.enabled) =
      if x = state then some true else (s.state2channelQueues x).map (·.enabled) := by
    by_cases hx : x = state
    case pos => simp [hx]
    case neg => simp [hx, setQueue_queues_ne]
  by_cases hn : heap.heap = []
  case pos =>
    have ht : (s.setQueue state { enabled := true, heap }).Tracks :=
      hex.tracks h.order (fun x _ => congrFun htime x) <| iff_of_false hm fun hr =>
        ((runnable_iff setQueue_queues_self).mp hr).2 hn
    refine ⟨_, ?_, h.of_tracks ht rfl rfl rfl exists_queue_setQueue, rfl, henabled,
      List.subset_cons_self ..⟩
    simp [finish, SteadyHeap.count, List.count_eq_zero.mpr hm, hq, hn]
  case neg =>
    obtain ⟨q, hp, hholds, ht⟩ := hex.pushState_spec hm <|
      (runnable_iff setQueue_queues_self).mpr ⟨rfl, hn⟩
    refine ⟨_, ?_, h.of_tracks ht rfl rfl rfl exists_queue_setQueue, rfl, henabled,
      hholds.perm.subset⟩
    simp [finish, SteadyHeap.count, List.count_eq_zero.mpr hm, hq, hn, hp]

end PipeRT.SchedulerImpl
