import PipeRT.Scheduler.Tracks

open Heap

namespace PipeRT.SchedulerImpl

variable {s s' : SchedulerImpl} {c : ChannelId} {ch : ChannelImpl} {state : Ptr} {t t' : Time}
variable {chq : EnabledChannelHeap} {heap old : SteadyHeap ChannelId} {enabled : Bool}

@[simp]
theorem view_setQueue : (s.setQueue state chq).view = s.view :=
  rfl

theorem view_setImpl_self : (s.setImpl c ch).view c = ch.view := by
  simp [view, setImpl]

theorem view_setImpl_ne (ch : ChannelImpl) : ∀ a ≠ c, (s.setImpl c ch).view a = s.view a := by
  intro a ha
  simp [view, setImpl, ha]

theorem runnable_iff (h : s.state2channelQueues state = some chq) :
    s.Runnable state ↔ chq.enabled = true ∧ chq.heap.heap ≠ [] := by
  simp [Runnable, h]

theorem stateTime_eq {top : ChannelId} (h : s.state2channelQueues state = some chq)
    (ht : chq.heap.front? = some top) : s.stateTime state = s.view.time top := by
  simp [stateTime, h, ht]

theorem runnable_congr {x : Ptr} (h : s'.state2channelQueues x = s.state2channelQueues x) :
    s'.Runnable x ↔ s.Runnable x := by
  simp [Runnable, h]

-- Editing the channel heap of the state of `c`, after a change of the jobs of `c`.
section Edit

variable (hv : ∀ x t, s.view c = some (x, t) → x = state)
variable (hv' : ∀ x t, ch.view = some (x, t) → x = state ∧ t < kMaxTime)
variable (hh : TracksHeap (s.setImpl c ch).view state heap.heap)
include hv hv' hh

theorem TracksHeaps.edit (h : s.TracksHeaps) :
    TracksHeaps ((s.setImpl c ch).setQueue state { enabled, heap }) where
  known a x t ha := by
    by_cases hac : a = c
    case pos =>
      subst hac
      have ⟨hx, ht⟩ := hv' x t <| view_setImpl_self ▸ ha
      exact ⟨by simp [hx], ht⟩
    case neg =>
      have ⟨⟨chq, hq⟩, ht⟩ := h.known a x t <| view_setImpl_ne ch a hac ▸ ha
      by_cases hx : x = state
      case pos => exact ⟨by simp [hx], ht⟩
      case neg => exact ⟨⟨chq, (setQueue_queues_ne hx).trans hq⟩, ht⟩
  heaps x chq hq := by
    by_cases hx : x = state
    case pos =>
      subst hx
      rw [setQueue_queues_self] at hq
      exact Option.some.inj hq ▸ hh
    case neg =>
      rw [setQueue_queues_ne hx] at hq
      refine (h.heaps x chq hq).other (c := c) (fun t ht => hx <| hv x t ht) (fun t ht => ?_)
        (view_setImpl_ne ch)
      exact hx (hv' x t <| view_setImpl_self ▸ ht).1

-- The other states do not notice.
theorem Tracks.edit (h : s.Tracks) (enabled : Bool) :
    TracksExcept ((s.setImpl c ch).setQueue state { enabled, heap }) state ∧
    ∀ x ∈ s.stateQueue.heap, x ≠ state →
      ((s.setImpl c ch).setQueue state { enabled, heap }).stateTime x = s.stateTime x := by
  have htime : ∀ x ∈ s.stateQueue.heap, x ≠ state →
      ((s.setImpl c ch).setQueue state { enabled, heap }).stateTime x = s.stateTime x := by
    intro x hx hne
    have ⟨chq, hq, _, hn⟩ := (h.mem x).mp hx
    have ⟨top, htop⟩ := Option.isSome_iff_exists.mp <| List.isSome_head?.mpr hn
    have ⟨t, ht⟩ := ((h.heaps x chq hq).mem top).mp <| List.mem_of_head? htop
    have htc : top ≠ c := fun htc => hne <| hv x t (htc ▸ ht)
    have hq' : ((s.setImpl c ch).setQueue state { enabled, heap }).state2channelQueues x = some chq :=
      (setQueue_queues_ne hne).trans hq
    rw [stateTime_eq hq htop, stateTime_eq hq' htop]
    exact TracksHeap.time_congr (view_setImpl_ne ch) top htc
  refine ⟨⟨h.toTracksHeaps.edit hv hv' hh, fun x hx => ?_, h.nodup, s.stateTime, h.order, htime⟩, htime⟩
  exact (h.mem x).trans <| (runnable_congr <| setQueue_queues_ne hx).symm

end Edit

-- What the scheduler may do when it is told about the jobs of a channel. A state gets into
-- `state_queue_` only together with a notification.
structure Requeued (s s' : SchedulerImpl) (wake : Option Nat) : Prop where
  frame   : s' = { s with stateQueue := s'.stateQueue, workers := s'.workers,
                          state2channelQueues := s'.state2channelQueues }
  enabled : ∀ x, (s'.state2channelQueues x).map (·.enabled) =
                 (s.state2channelQueues x).map (·.enabled)
  workers : (s'.workers = s.workers ∧ s'.stateQueue.heap ⊆ s.stateQueue.heap) ∨
            (∃ w ∈ wake, s'.workers = Worker.notifyOne s.workers w)

theorem enabled_setQueue
    (hq : s.state2channelQueues state = some { enabled, heap := old }) (x : Ptr) :
    ((s.setQueue state { enabled, heap }).state2channelQueues x).map (·.enabled) =
    (s.state2channelQueues x).map (·.enabled) := by
  by_cases hx : x = state
  case pos => simp [hx, setQueue_queues_self, hq]
  case neg => rw [setQueue_queues_ne hx]


-- What becomes of `state_queue_` once the channel heap of a state was edited. The enabled flag stays
-- as it was.
section Settle

variable (h : s.Tracks) (hv : ∀ x t, s.view c = some (x, t) → x = state)
variable (hv' : ∀ x t, ch.view = some (x, t) → x = state ∧ t < kMaxTime)
variable (hh : TracksHeap (s.setImpl c ch).view state heap.heap)
include h hv hv' hh

theorem settle_keep (wake : Option Nat)
    (hq : s.state2channelQueues state = some { enabled, heap := old })
    (hk : enabled = true → old.heap ≠ [] ∧ heap.heap ≠ [] ∧
      ((s.setImpl c ch).setQueue state { enabled, heap }).stateTime state = s.stateTime state) :
    ((s.setImpl c ch).setQueue state { enabled, heap }).Tracks ∧
      Requeued (s.setImpl c ch) ((s.setImpl c ch).setQueue state { enabled, heap }) wake := by
  have ⟨hex, hkey⟩ := h.edit hv hv' hh enabled
  have hmem := (h.mem state).trans <| runnable_iff hq
  refine ⟨hex.tracks h.order (fun x hx => ?_) ?_, rfl, enabled_setQueue hq,
    .inl ⟨rfl, List.Subset.refl _⟩⟩
  case refine_1 =>
    by_cases hxs : x = state
    case neg => exact hkey x hx hxs
    case pos =>
      subst hxs
      exact (hk (hmem.mp hx).1).2.2
  case refine_2 =>
    rw [runnable_iff setQueue_queues_self]
    refine hmem.trans ⟨fun he => ⟨he.1, (hk he.1).2.1⟩, fun he => ⟨he.1, (hk he.1).1⟩⟩

theorem settle_disabled (wake : Option Nat)
    (hq : s.state2channelQueues state = some { enabled := false, heap := old }) :
    ((s.setImpl c ch).setQueue state { enabled := false, heap }).Tracks ∧
      Requeued (s.setImpl c ch) ((s.setImpl c ch).setQueue state { enabled := false, heap }) wake :=
  settle_keep h hv hv' hh wake hq nofun

theorem settle_requeue (hq : s.state2channelQueues state = some { enabled := true, heap := old })
    (hn : old.heap ≠ []) (hn' : heap.heap ≠ []) :
    ∃ q q' : SteadyHeap Ptr,
      ((s.setImpl c ch).setQueue state { enabled := true, heap }).forcePopState state =
        .ok (((s.setImpl c ch).setQueue state { enabled := true, heap }).setStateQueue q) ∧
      (((s.setImpl c ch).setQueue state { enabled := true, heap }).setStateQueue q).pushState state =
        .ok (((s.setImpl c ch).setQueue state { enabled := true, heap }).setStateQueue q') ∧
      q'.heap.Perm s.stateQueue.heap ∧
      (((s.setImpl c ch).setQueue state { enabled := true, heap }).setStateQueue q').Tracks := by
  have ⟨hex, _⟩ := h.edit hv hv' hh true
  have hmem := (h.mem state).trans <| runnable_iff hq
  exact hex.requeue_spec (hmem.mpr ⟨rfl, hn⟩) <| (runnable_iff setQueue_queues_self).mpr ⟨rfl, hn'⟩

theorem settle_arrive (hq : s.state2channelQueues state = some { enabled := true, heap := old })
    (hn : old.heap = []) (hn' : heap.heap ≠ []) :
    state ∉ s.stateQueue.heap ∧ ∃ q : SteadyHeap Ptr,
      ((s.setImpl c ch).setQueue state { enabled := true, heap }).pushState state =
        .ok (((s.setImpl c ch).setQueue state { enabled := true, heap }).setStateQueue q) ∧
      (((s.setImpl c ch).setQueue state { enabled := true, heap }).setStateQueue q).Tracks := by
  have ⟨hex, _⟩ := h.edit hv hv' hh true
  have hmem : state ∉ s.stateQueue.heap := fun hm =>
    ((h.mem state).trans (runnable_iff hq) |>.mp hm).2 hn
  have ⟨q, hp, _, ht⟩ := hex.pushState_spec hmem <|
    (runnable_iff setQueue_queues_self).mpr ⟨rfl, hn'⟩
  exact ⟨hmem, q, hp, ht⟩

theorem settle_leave (hq : s.state2channelQueues state = some { enabled := true, heap := old })
    (hn : old.heap ≠ []) (hn' : heap.heap = []) :
    ∃ q : SteadyHeap Ptr,
      ((s.setImpl c ch).setQueue state { enabled := true, heap }).forcePopState state =
        .ok (((s.setImpl c ch).setQueue state { enabled := true, heap }).setStateQueue q) ∧
      q.heap ⊆ s.stateQueue.heap ∧
      (((s.setImpl c ch).setQueue state { enabled := true, heap }).setStateQueue q).Tracks := by
  have ⟨hex, _⟩ := h.edit hv hv' hh true
  have hmem := (h.mem state).trans <| runnable_iff hq
  have ⟨q, hp, hholds, hnq, hex'⟩ := hex.forcePopState_spec <| hmem.mpr ⟨rfl, hn⟩
  refine ⟨q, hp, fun x hx => List.mem_of_mem_erase <| hholds.perm.mem_iff.mp hx, ?_⟩
  refine hex'.tracks hholds.order (fun _ _ => rfl) (iff_of_false hnq fun hr => ?_)
  exact ((runnable_iff setQueue_queues_self).mp hr).2 hn'

end Settle

theorem Tracks.notifyOne (h : s.Tracks) (wake : Nat) : (s.notifyOne wake).Tracks :=
  ⟨⟨h.known, h.heaps⟩, h.mem, h.nodup, h.order⟩

theorem exists_front {h : SteadyHeap ChannelId} (hn : h.heap ≠ []) : ∃ top, h.front? = some top :=
  Option.isSome_iff_exists.mp <| List.isSome_head?.mpr hn

theorem jobsArrived_spec (h : s.Tracks) (hv : s.view c = none) (hv' : ch.view = some (state, t))
    (hq : s.state2channelQueues state = some { enabled, heap := old }) (ht : t < kMaxTime) (wake : Nat) :
    ∃ s', (s.setImpl c ch).jobsArrived c wake = .ok s' ∧ s'.Tracks ∧
      Requeued (s.setImpl c ch) s' (some wake) := by
  have hc : (s.setImpl c ch).view c = some (state, t) := view_setImpl_self.trans hv'
  obtain ⟨_, hd, hst⟩ := deref_of_view hc
  have hh := h.heaps state _ hq
  have hnc : c ∉ old.heap := by simp [hh.mem, hv]
  have hsome : ∀ a ∈ c :: old.heap, ((s.setImpl c ch).view a).isSome := by
    intro a ha
    by_cases hac : a = c
    case pos => simp [hac, hc]
    case neg =>
      rw [view_setImpl_ne ch a hac]
      exact hh.isSome a (by simpa [hac] using ha)
  have htime := TracksHeap.time_congr (view_setImpl_ne (s := s) (c := c) ch)
  obtain ⟨heap, hheap, hholds, _⟩ := SteadyHeap.pushHeap_spec c
    (hh.order.congr fun a ha => htime a fun hac => hnc (hac ▸ ha)) (channelOrdering_agrees hsome)
  have hh' := hh.insert hv hc (view_setImpl_ne ch) hholds
  have hn' : heap.heap ≠ [] := fun hnil => by simpa [hnil] using hholds.perm.length_eq
  obtain ⟨top', htop'⟩ := exists_front hn'
  have hnext := peekFront_of_top htop' <|
    hsome top' <| hholds.perm.mem_iff.mp <| List.mem_of_head? htop'
  have hnext : ((s.setImpl c ch).setQueue state { enabled, heap }).peekFront heap =
    .ok ((s.setImpl c ch).view.time top') := hnext
  have hvs : ∀ x t, s.view c = some (x, t) → x = state := by simp [hv]
  have hvs' : ∀ x t, ch.view = some (x, t) → x = state ∧ t < kMaxTime := by
    simp +contextual [hv', ht]
  have hle := hholds.front_le htop' (List.mem_cons_self ..)
  rw [View.time_eq hc] at hle
  have hlt := lt_of_le_of_lt hle ht
  by_cases hn : old.heap = []
  case pos =>
    -- The channel is the only one with jobs, so that the state has to get into the queue.
    cases enabled
    case true =>
      obtain ⟨hns, q, hp, ht⟩ := settle_arrive h hvs hvs' hh' hq hn hn'
      refine ⟨_, ?_, ht.notifyOne wake, rfl, enabled_setQueue hq, .inr ⟨wake, rfl, rfl⟩⟩
      simp [jobsArrived, hd, hst, subscript_eq, hq, SteadyHeap.count, hn, hheap, hnext, hlt,
        List.count_eq_zero.mpr hns, hp]
    case false =>
      obtain ⟨ht, hr⟩ := settle_disabled h hvs hvs' hh' (some wake) hq
      refine ⟨_, ?_, ht, hr⟩
      simp [jobsArrived, hd, hst, subscript_eq, hq, SteadyHeap.count, hn, hheap]
  case neg =>
    obtain ⟨top, htop⟩ := exists_front hn
    have htopm := List.mem_of_head? htop
    have htopt := htime top fun htc => hnc (htc ▸ htopm)
    have hearliest := peekFront_of_top htop <| hsome top <| List.mem_cons_of_mem _ htopm
    have hmax : (s.setImpl c ch).view.time top ≠ kMaxTime := by
      obtain ⟨t, ht⟩ := (hh.mem top).mp htopm
      rw [htopt, View.time_eq ht]
      exact ne_of_lt (h.known top state t ht).2
    cases enabled
    case false =>
      obtain ⟨ht, hr⟩ := settle_disabled h hvs hvs' hh' (some wake) hq
      refine ⟨_, ?_, ht, hr⟩
      simp [jobsArrived, hd, hst, subscript_eq, hq, SteadyHeap.count, List.count_eq_zero.mpr hnc, hn,
        hheap, hearliest]
    case true =>
      by_cases hlt : (s.setImpl c ch).view.time top' < (s.setImpl c ch).view.time top
      case pos =>
        obtain ⟨q, q', hp, hp', _, ht⟩ := settle_requeue h hvs hvs' hh' hq hn hn'
        refine ⟨_, ?_, ht.notifyOne wake, rfl, enabled_setQueue hq, .inr ⟨wake, rfl, rfl⟩⟩
        simp [jobsArrived, hd, hst, subscript_eq, hq, SteadyHeap.count, List.count_eq_zero.mpr hnc,
          hn, hheap, hearliest, hnext, hlt, hmax, hp, hp']
      case neg =>
        -- The time of the state has not changed, so that its position is still right.
        have heq := le_antisymm (hholds.front_le htop' <| List.mem_cons_of_mem _ htopm)
          (not_lt.mp hlt)
        obtain ⟨ht, hr⟩ := settle_keep h hvs hvs' hh' (some wake) hq fun _ => ⟨hn, hn', by
          rw [stateTime_eq setQueue_queues_self htop', stateTime_eq hq htop, ← htopt]
          exact heq⟩
        refine ⟨_, ?_, ht, hr⟩
        simp [jobsArrived, hd, hst, subscript_eq, hq, SteadyHeap.count, List.count_eq_zero.mpr hnc,
          hn, hheap, hearliest, hnext, hlt]

-- The channel is in the heap of its state, once.
theorem Tracks.exists_heap (h : s.Tracks) (hv : s.view c = some (state, t)) :
    ∃ enabled heap, s.state2channelQueues state = some ⟨enabled, heap⟩ ∧
      TracksHeap s.view state heap.heap ∧ c ∈ heap.heap ∧ heap.heap.count c = 1 := by
  obtain ⟨⟨⟨enabled, heap⟩, hq⟩, _⟩ := h.known c state t hv
  have hh := h.heaps state _ hq
  have hcm : c ∈ heap.heap := (hh.mem c).mpr ⟨t, hv⟩
  exact ⟨enabled, heap, hq, hh, hcm, hh.nodup.count.trans <| if_pos hcm⟩

theorem jobsUpdated_spec (h : s.Tracks) (hv : s.view c = some (state, t))
    (hv' : ch.view = some (state, t')) (ht' : t' < kMaxTime) (wasPush : Bool) (wake : Nat) :
    ∃ s', (s.setImpl c ch).jobsUpdated c wasPush wake = .ok s' ∧ s'.Tracks ∧
      Requeued (s.setImpl c ch) s' (if wasPush then some wake else none) := by
  have hc : (s.setImpl c ch).view c = some (state, t') := view_setImpl_self.trans hv'
  obtain ⟨_, hd, hst⟩ := deref_of_view hc
  obtain ⟨enabled, old, hq, hh, hcm, hcount⟩ := h.exists_heap hv
  have hn : old.heap ≠ [] := List.ne_nil_of_mem hcm
  have hsome : ∀ a ∈ old.heap, ((s.setImpl c ch).view a).isSome := by
    intro a ha
    by_cases hac : a = c
    case pos => simp [hac, hc]
    case neg => simpa [view_setImpl_ne ch a hac] using hh.isSome a ha
  have htime := TracksHeap.time_congr (view_setImpl_ne (s := s) (c := c) ch)
  obtain ⟨heap₁, hheap₁, hholds₁, _⟩ := SteadyHeap.forcePopHeap_spec hh.order hh.nodup hcm
    (fun a _ => htime a) (channelOrdering_agrees fun a ha => hsome a <| List.mem_of_mem_erase ha)
  have hperm := (hholds₁.perm.cons c).trans (List.perm_cons_erase hcm).symm
  obtain ⟨heap, hheap, hholds, _⟩ := SteadyHeap.pushHeap_spec c hholds₁.order
    (channelOrdering_agrees fun a ha => hsome a <| hperm.subset ha)
  have hholds : heap.Holds (s.setImpl c ch).view.time (c :: old.heap.erase c) :=
    ⟨hholds.perm.trans <| hholds₁.perm.cons c, hholds.order⟩
  have hperm := hholds.perm.trans (List.perm_cons_erase hcm).symm
  have hh' := hh.update hc (view_setImpl_ne ch) hholds
  have hn' : heap.heap ≠ [] := fun hnil => hn <| by simpa [hnil] using hperm.symm
  obtain ⟨top, htop⟩ := exists_front hn
  have htopm := List.mem_of_head? htop
  have hearliest := peekFront_of_top htop <| hsome top htopm
  obtain ⟨top', htop'⟩ := exists_front hn'
  have hnext := peekFront_of_top htop' <| hsome top' <| hperm.mem_iff.mp <| List.mem_of_head? htop'
  have hnext : ((s.setImpl c ch).setQueue state { enabled, heap }).peekFront heap =
    .ok ((s.setImpl c ch).view.time top') := hnext
  have hvs : ∀ x t, s.view c = some (x, t) → x = state := by simp +contextual [hv]
  have hvs' : ∀ x t, ch.view = some (x, t) → x = state ∧ t < kMaxTime := by
    simp +contextual [hv', ht']
  cases enabled
  case false =>
    obtain ⟨ht, hr⟩ := settle_disabled h hvs hvs' hh'
      (if wasPush then some wake else none) hq
    refine ⟨_, ?_, ht, hr⟩
    simp [jobsUpdated, hd, hst, subscript_eq, hq, SteadyHeap.count, hcount, hn, hearliest, hheap₁,
      hheap]
  case true =>
    by_cases hmove : (s.setImpl c ch).view.time top' ≠ (s.setImpl c ch).view.time top ∨ top = c
    case pos =>
      obtain ⟨q, q', hp, hp', hpq, ht⟩ := settle_requeue h hvs hvs' hh' hq hn hn'
      cases wasPush
      case false =>
        refine ⟨_, ?_, ht, rfl, enabled_setQueue hq, .inl ⟨rfl, hpq.subset⟩⟩
        simp [jobsUpdated, hd, hst, subscript_eq, hq, SteadyHeap.count, hcount, hn, hearliest,
          hheap₁, hheap, hnext, htop, hmove, hp, hp']
      case true =>
        refine ⟨_, ?_, ht.notifyOne wake, rfl, enabled_setQueue hq, .inr ⟨wake, rfl, rfl⟩⟩
        simp [jobsUpdated, hd, hst, subscript_eq, hq, SteadyHeap.count, hcount, hn, hearliest,
          hheap₁, hheap, hnext, htop, hmove, hp, hp']
    case neg =>
      -- The channel was not on top, and what is on top now has the same time.
      obtain ⟨heq, hne⟩ := not_or.mp hmove
      obtain ⟨ht, hr⟩ := settle_keep h hvs hvs' hh'
        (if wasPush then some wake else none) hq fun _ => ⟨hn, hn', by
        rw [stateTime_eq setQueue_queues_self htop', stateTime_eq hq htop, ← htime top hne]
        exact not_not.mp heq⟩
      refine ⟨_, ?_, ht, hr⟩
      simp [jobsUpdated, hd, hst, subscript_eq, hq, SteadyHeap.count, hcount, hn, hearliest, hheap₁,
        hheap, hnext, htop, hmove]

theorem jobsDropped_spec (h : s.Tracks) (hv : s.view c = some (state, t)) (hv' : ch.view = none)
    (hst : ch.singleThreadObject = state) :
    ∃ s', (s.setImpl c ch).jobsDropped c = .ok s' ∧ s'.Tracks ∧
      Requeued (s.setImpl c ch) s' none := by
  have hc : (s.setImpl c ch).view c = none := view_setImpl_self.trans hv'
  obtain ⟨enabled, old, hq, hh, hcm, hcount⟩ := h.exists_heap hv
  have hn : old.heap ≠ [] := List.ne_nil_of_mem hcm
  -- The channel itself is not among those that are compared.
  have hsome : ∀ a ∈ old.heap.erase c, ((s.setImpl c ch).view a).isSome := by
    intro a ha
    obtain ⟨hac, ha⟩ := hh.nodup.mem_erase_iff.mp ha
    simpa [view_setImpl_ne ch a hac] using hh.isSome a ha
  have htime := TracksHeap.time_congr (view_setImpl_ne (s := s) (c := c) ch)
  obtain ⟨heap, hheap, hholds, _⟩ := SteadyHeap.forcePopHeap_spec hh.order hh.nodup hcm
    (fun a _ => htime a) (channelOrdering_agrees hsome)
  have hh' := hh.erase hc (view_setImpl_ne ch) hholds
  obtain ⟨top, htop⟩ := exists_front hn
  have htopm := List.mem_of_head? htop
  have hvs : ∀ x t, s.view c = some (x, t) → x = state := by simp +contextual [hv]
  have hvs' : ∀ x t, ch.view = some (x, t) → x = state ∧ t < kMaxTime := by simp [hv']
  cases enabled
  case false =>
    obtain ⟨ht, hr⟩ := settle_disabled h hvs hvs' hh' none hq
    refine ⟨_, ?_, ht, hr⟩
    simp [jobsDropped, hst, subscript_eq, hq, SteadyHeap.count, hcount, hn, hheap]
  case true =>
    by_cases htc : top = c
    case pos =>
      by_cases hn' : heap.heap = []
      case pos =>
        obtain ⟨q, hp, hsub, ht⟩ := settle_leave h hvs hvs' hh' hq hn hn'
        refine ⟨_, ?_, ht, rfl, enabled_setQueue hq, .inl ⟨rfl, hsub⟩⟩
        simp [jobsDropped, hst, subscript_eq, hq, SteadyHeap.count, hcount, hn, hheap, htop, htc, hp,
          hn']
      case neg =>
        obtain ⟨q, q', hp, hp', hpq, ht⟩ := settle_requeue h hvs hvs' hh' hq hn hn'
        refine ⟨_, ?_, ht, rfl, enabled_setQueue hq, .inl ⟨rfl, hpq.subset⟩⟩
        simp [jobsDropped, hst, subscript_eq, hq, SteadyHeap.count, hcount, hn, hheap, htop, htc, hp,
          hp', hn']
    case neg =>
      -- What was on top is still there, and nothing is earlier.
      have htope := (List.mem_erase_of_ne htc).mpr htopm
      have hn' : heap.heap ≠ [] := List.ne_nil_of_mem <| hholds.perm.mem_iff.mpr htope
      obtain ⟨top', htop'⟩ := exists_front hn'
      obtain ⟨htc', htopm'⟩ := hh.nodup.mem_erase_iff.mp <| hholds.perm.mem_iff.mp <|
        List.mem_of_head? htop'
      have hle := hholds.front_le htop' htope
      have hge := hh.order.root_le htop htopm'
      rw [← htime top' htc', ← htime top htc] at hge
      obtain ⟨ht, hr⟩ := settle_keep h hvs hvs' hh' none hq fun _ => ⟨hn, hn', by
        rw [stateTime_eq setQueue_queues_self htop', stateTime_eq hq htop, ← htime top htc]
        exact le_antisymm hle hge⟩
      refine ⟨_, ?_, ht, hr⟩
      simp [jobsDropped, hst, subscript_eq, hq, SteadyHeap.count, hcount, hn, hheap, htop, htc]

end PipeRT.SchedulerImpl
