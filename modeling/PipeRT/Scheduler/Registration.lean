import PipeRT.Scheduler.Take

open Heap

-- A vector without one element, as it is after the last element was moved into its place.
theorem List.set_idxOf_perm {α : Type} [DecidableEq α] {xs : List α} {a b : α} (h : a ∈ xs) :
    (xs.set (xs.idxOf a) b).Perm (b :: xs.erase a) := by
  induction xs
  case nil => contradiction
  case cons x xs ih =>
    by_cases hx : x = a
    case pos => simp [hx]
    case neg =>
      have hm : a ∈ xs := (List.mem_cons.mp h).resolve_left (Ne.symm hx)
      have hi : (x :: xs).idxOf a = xs.idxOf a + 1 := List.idxOf_cons_ne _ hx
      rw [hi, List.set_cons_succ, List.erase_cons_tail (by simpa using hx)]
      exact ((ih hm).cons x).trans (.swap ..)

theorem List.set_idxOf_getLastD_dropLast_perm {α : Type} [DecidableEq α] {xs : List α} {a d : α}
    (h : a ∈ xs) : (xs.set (xs.idxOf a) (xs.getLastD d)).dropLast.Perm (xs.erase a) := by
  have ⟨ys, z, hxs⟩ : ∃ ys z, xs = ys ++ [z] :=
    ⟨_, _, (List.dropLast_concat_getLast <| List.ne_nil_of_mem h).symm⟩
  subst hxs
  rw [List.getLastD_concat]
  by_cases hm : a ∈ ys
  case pos =>
    have hlt := List.idxOf_lt_length_of_mem hm
    rw [List.idxOf_append_of_mem hm, List.set_append_left _ _ hlt, List.dropLast_concat,
      List.erase_append_left _ hm]
    exact (List.set_idxOf_perm hm).trans (List.perm_append_singleton z _).symm
  case neg =>
    have hz : a = z := by simpa [hm] using h
    subst hz
    rw [List.idxOf_append_of_notMem hm, List.erase_append_right _ hm]
    simp

namespace PipeRT.SchedulerImpl

variable {s s' : SchedulerImpl} {c : ChannelId} {ch : ChannelImpl} {state : Ptr}

-- The scheduler cannot tell a state without an entry from one whose entry is as it was made.
theorem Tracks.congr (h : s.Tracks) (hv : s'.view = s.view)
    (hs : s'.stateQueue.heap = s.stateQueue.heap)
    (he : ∀ x, (s'.subscript x).enabled = (s.subscript x).enabled)
    (hh : ∀ x, (s'.subscript x).heap.heap = (s.subscript x).heap.heap)
    (hq : ∀ x chq, s.state2channelQueues x = some chq → ∃ chq, s'.state2channelQueues x = some chq) :
    s'.Tracks := by
  have htime : s'.stateTime = s.stateTime := by
    funext x
    rw [stateTime_eq_subscript, stateTime_eq_subscript, hh, hv]
  refine ⟨⟨fun a x t ha => ?_, fun x chq hx => ?_⟩, fun x => ?_, hs ▸ h.nodup, hs ▸ htime ▸ h.order⟩
  case refine_1 =>
    obtain ⟨⟨chq, hchq⟩, ht⟩ := h.known a x t (hv ▸ ha)
    exact ⟨hq x chq hchq, ht⟩
  case refine_2 =>
    have hheap : chq.heap.heap = (s.subscript x).heap.heap := by
      rw [← hh, subscript_eq hx]
    rw [hv, hheap]
    cases hsx : s.state2channelQueues x
    case some chq' =>
      rw [subscript_eq hsx]
      exact h.heaps x chq' hsx
    case none =>
      -- No channel has asked for this state, so that none of its jobs can be missing.
      have hno : ∀ a t, s.view a ≠ some (x, t) := fun a t ha => by
        obtain ⟨⟨chq', hchq'⟩, _⟩ := h.known a x t ha
        simp [hsx] at hchq'
      simpa [subscript, hsx, EnabledChannelHeap.new, SteadyHeap.empty] using
        TracksHeap.mk (by simpa using hno) List.nodup_nil IsHeap.nil
  case refine_3 => rw [hs, h.mem, runnable_iff_subscript, runnable_iff_subscript, he, hh]

theorem view_setImpl_of_none (hc : s.view c = none) (hv : ch.view = none) :
    (s.setImpl c ch).view = s.view := by
  funext a
  by_cases ha : a = c
  case pos => rw [ha, view_setImpl_self, hv, hc]
  case neg => exact view_setImpl_ne _ a ha

@[simp]
theorem subscript_setQueue_self {chq : EnabledChannelHeap} :
    (s.setQueue state chq).subscript state = chq := by
  simp [subscript]

theorem subscript_setQueue_ne {chq : EnabledChannelHeap} {x : Ptr} (hx : x ≠ state) :
    (s.setQueue state chq).subscript x = s.subscript x := by
  simp [subscript, setQueue_queues_ne hx]

-- What the registration of a new channel changes.
structure Created (s s' : SchedulerImpl) (c : ChannelId) (ch : ChannelImpl) : Prop where
  frame   : s' = { s with impls := Function.update s.impls c (some ch),
                          channels := s.channels ++ [c],
                          stateQueue := s'.stateQueue,
                          state2channelQueues := s'.state2channelQueues }
  enabled : ∀ x, (s'.subscript x).enabled = (s.subscript x).enabled
  queue   : s'.stateQueue.heap = s.stateQueue.heap

-- The entry of the state of a new channel, with room for one more channel.
def grownQueue (s : SchedulerImpl) (state : Ptr) : EnabledChannelHeap :=
  { s.subscript state with
    heap := (s.subscript state).heap.reserve ((s.subscript state).heap.capacity + 1) }

-- `state_queue_`, with room for a state that is new.
def grownStateQueue (s : SchedulerImpl) (state : Ptr) : SteadyHeap Ptr :=
  if (s.state2channelQueues state).isNone then
    s.stateQueue.reserve (s.stateQueue.capacity + 1)
  else
    s.stateQueue

@[simp]
theorem grownStateQueue_heap : (s.grownStateQueue state).heap = s.stateQueue.heap := by
  rw [grownStateQueue]
  split <;> rfl

theorem createChannel_eq {name : String} {capacity : Nat} {callback : Bool}
    (hr : s.running = false)
    (hch : ch = (ChannelImpl.new name capacity state callback).setProfileData
      (if s.profiler then some [] else none)) :
    s.createChannel c name capacity state callback =
      .ok ((({ s with channels := s.channels ++ [c] }.setImpl c ch).setStateQueue
        (s.grownStateQueue state)).setQueue state (s.grownQueue state)) := by
  have hst : (ChannelImpl.new name capacity state callback).singleThreadObject = state := rfl
  cases hq : s.state2channelQueues state
  case none =>
    cases hp : s.profiler <;>
      simp [createChannel, registerChannel, setImpl, setQueue, setStateQueue, deref, hr, hst, hq, hp,
        hch, grownQueue, grownStateQueue, subscript, EnabledChannelHeap.new, SteadyHeap.empty]
    rfl
  case some chq =>
    cases hp : s.profiler <;>
      simp [createChannel, registerChannel, setImpl, setQueue, setStateQueue, deref, hr, hst, hq, hp,
        hch, grownQueue, grownStateQueue, subscript]
    rfl

theorem createChannel_spec (name : String) (capacity : Nat) (state : Ptr) (callback : Bool)
    (h : s.WF) (hr : s.running = false) (hc : s.impls c = none)
    (hch : ch = (ChannelImpl.new name capacity state callback).setProfileData
      (if s.profiler then some [] else none)) :
    ∃ s', s.createChannel c name capacity state callback = .ok s' ∧ s'.WF ∧ s.Created s' c ch := by
  have hs' := createChannel_eq (c := c) hr hch
  generalize hg : s.grownStateQueue state = q at hs'
  have hq : q.heap = s.stateQueue.heap := hg ▸ grownStateQueue_heap
  have hsub (x : Ptr) :
      ((((({ s with channels := s.channels ++ [c] }.setImpl c ch).setStateQueue q).setQueue state
        (s.grownQueue state)).subscript x).enabled = (s.subscript x).enabled) ∧
      ((((({ s with channels := s.channels ++ [c] }.setImpl c ch).setStateQueue q).setQueue state
        (s.grownQueue state)).subscript x).heap.heap = (s.subscript x).heap.heap) := by
    by_cases hx : x = state
    case pos => subst hx; simp [grownQueue, SteadyHeap.reserve]
    case neg => simp [subscript_setQueue_ne hx]; exact ⟨rfl, rfl⟩
  have hview : (s.setImpl c ch).view = s.view :=
    view_setImpl_of_none (by simp [view, hc]) (channel_view_of_empty <| by rw [hch]; rfl)
  have hqueue : ∀ x, (∃ chq, s.state2channelQueues x = some chq) ∨ x = state →
      ∃ chq, ((({ s with channels := s.channels ++ [c] }.setImpl c ch).setStateQueue q).setQueue state
        (s.grownQueue state)).state2channelQueues x = some chq := fun x hx => by
    by_cases hxs : x = state
    case pos => simp [hxs]
    case neg => rw [setQueue_queues_ne hxs]; exact hx.resolve_right hxs
  have himpl : ∀ a x, (s.setImpl c ch).impls a = some x → (a = c ∧ x = ch) ∨ s.impls a = some x := by
    intro a x ha
    by_cases hac : a = c
    case pos =>
      subst hac
      exact .inl ⟨rfl, (Option.some.inj <| setImpl_impls_self.symm.trans ha).symm⟩
    case neg => exact .inr <| (setImpl_impls_ne hac).symm.trans ha
  refine ⟨_, hs', ⟨?_, fun a x ha => ?_, fun a x ha => ?_, fun a => ?_, ?_, fun a x ha hp => ?_⟩,
    rfl, fun x => (hsub x).1, hq⟩
  case refine_1 =>
    exact h.toTracks.congr hview hq (fun x => (hsub x).1) (fun x => (hsub x).2)
      fun x chq hx => hqueue x <| .inl ⟨chq, hx⟩
  case refine_2 =>
    obtain ⟨_, rfl⟩ | ha := himpl a x ha
    · subst hch
      exact ⟨IsHeap.nil, List.nodup_nil, fun p hp => absurd hp List.not_mem_nil⟩
    · exact h.sorted a x ha
  case refine_3 =>
    obtain ⟨_, rfl⟩ | ha := himpl a x ha
    · exact hqueue _ <| .inr <| by rw [hch]; rfl
    · exact hqueue _ <| .inl <| h.registered a x ha
  case refine_4 =>
    rw [setQueue_channels, setStateQueue_channels, setImpl_channels, List.mem_append, h.live]
    by_cases hac : a = c
    case pos => simp [hac]
    case neg => simpa [hac] using by rw [← setImpl_impls_ne hac]; rfl
  case refine_5 =>
    have hno : c ∉ s.channels := fun hm => by
      obtain ⟨_, hx⟩ := (h.live c).mp hm
      simp [hc] at hx
    exact List.nodup_append.mpr ⟨h.distinct, by simp, by
      simpa using fun a ha (hac : a = c) => hno (hac ▸ ha)⟩
  case refine_6 =>
    have hprof : s.profiler = true := hp
    obtain ⟨_, rfl⟩ | ha := himpl a x ha
    · simp [hch, ChannelImpl.setProfileData, hprof]
    · exact h.profiled a x ha hprof

-- What the destruction of a channel changes.
structure Destroyed (s s' : SchedulerImpl) (c : ChannelId) : Prop where
  frame    : s' = { s with impls := Function.update s.impls c none, channels := s'.channels }
  channels : s'.channels.Perm (s.channels.erase c)

theorem destroyChannel_spec (h : s.WF) (hr : s.running = false) (hc : s.impls c = some ch)
    (hv : ch.view = none) :
    ∃ s', s.destroyChannel c = .ok s' ∧ s'.WF ∧ s.Destroyed s' c := by
  have hm : c ∈ s.channels := (h.live c).mpr ⟨ch, hc⟩
  have hperm := List.set_idxOf_getLastD_dropLast_perm (d := c) hm
  rw [List.getLastD_eq_getLast?] at hperm
  generalize hchs : (s.channels.set (s.channels.idxOf c) (s.channels.getLast?.getD c)).dropLast =
    channels at hperm
  have hs' : s.destroyChannel c =
      .ok { s with impls := Function.update s.impls c none, channels } := by
    cases hp : s.profiler
    case false => simp [destroyChannel, unregisterChannel, hr, hm, deref_eq hc, hp, hchs]
    case true =>
      simp [destroyChannel, unregisterChannel, hr, hm, deref_eq hc, hp, hchs,
        h.profiled c ch hc hp, setImpl]
  have hview : { s with impls := Function.update s.impls c none, channels }.view = s.view := by
    funext a
    by_cases ha : a = c
    case pos => simp [view, ha, hc, hv]
    case neg => simp [view, ha]
  have himpl : ∀ a x, Function.update s.impls c none a = some x → s.impls a = some x := by
    intro a x ha
    by_cases hac : a = c
    case pos => simp [hac] at ha
    case neg => simpa [hac] using ha
  refine ⟨_, hs', ⟨h.toTracks.congr hview rfl (fun _ => rfl) (fun _ => rfl) fun _ chq hx => ⟨chq, hx⟩,
    fun a x ha => h.sorted a x (himpl a x ha), fun a x ha => h.registered a x (himpl a x ha),
    fun a => ?_, ?_, fun a x ha hp => h.profiled a x (himpl a x ha) hp⟩, rfl, hperm⟩
  case refine_1 =>
    refine hperm.mem_iff.trans <| h.distinct.mem_erase_iff.trans ?_
    by_cases hac : a = c
    case pos => simp [hac]
    case neg => simp [hac, h.live]
  case refine_2 => exact hperm.nodup_iff.mpr <| h.distinct.erase c

end PipeRT.SchedulerImpl
