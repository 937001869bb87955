import PipeRT.Scheduler.Impl

open Heap

namespace PipeRT

-- What a scheduler has to know about the channels: the state of every channel that has jobs, and
-- the timestamp of its next job.
abbrev View := ChannelId → Option (Ptr × Time)

def View.time (v : View) (c : ChannelId) : Time :=
  match v c with
  | none        => 0
  | some (_, t) => t

theorem View.time_eq {v : View} {c : ChannelId} {state : Ptr} {t : Time} (h : v c = some (state, t)) :
    v.time c = t := by
  simp [View.time, h]

def ChannelImpl.view (ch : ChannelImpl) : Option (Ptr × Time) :=
  if ch.isScheduled then
    ch.queuedPackets.front?.map fun p => (ch.singleThreadObject, ch.timestamp p)
  else
    none

-- The channel heap of a state holds the channels of that state which have jobs.
structure TracksHeap (v : View) (state : Ptr) (heap : List ChannelId) : Prop where
  mem   : ∀ c, c ∈ heap ↔ ∃ t, v c = some (state, t)
  nodup : heap.Nodup
  order : IsHeap v.time heap

namespace TracksHeap

variable {v v' : View} {c : ChannelId} {state : Ptr} {t : Time} {heap : List ChannelId}
variable {h : SteadyHeap ChannelId}

theorem time_congr (hne : ∀ a ≠ c, v' a = v a) :
    ∀ a ≠ c, v'.time a = v.time a :=
  fun a ha => by simp [View.time, hne a ha]

theorem isSome (hh : TracksHeap v state heap) : ∀ a ∈ heap, (v a).isSome := by
  intro a ha
  have ⟨_, ht⟩ := (hh.mem a).mp ha
  simp [ht]

-- A channel that does not have jobs gets one.
theorem insert (hh : TracksHeap v state heap) (hv : v c = none) (hv' : v' c = some (state, t))
    (hne : ∀ a ≠ c, v' a = v a) (hs : h.Holds v'.time (c :: heap)) :
    TracksHeap v' state h.heap where
  mem a := by
    rw [hs.perm.mem_iff, List.mem_cons, hh.mem]
    by_cases ha : a = c
    case pos => simp [ha, hv']
    case neg => simp [ha, hne a ha]
  nodup := hs.perm.nodup_iff.mpr <| List.nodup_cons.mpr ⟨by simp [hh.mem, hv], hh.nodup⟩
  order := hs.order

-- A channel that has jobs gets another next job.
theorem update (hh : TracksHeap v state heap) (hv' : v' c = some (state, t)) (hne : ∀ a ≠ c, v' a = v a)
    (hs : h.Holds v'.time (c :: heap.erase c)) : TracksHeap v' state h.heap where
  mem a := by
    rw [hs.perm.mem_iff, List.mem_cons, hh.nodup.mem_erase_iff, hh.mem]
    by_cases ha : a = c
    case pos => simp [ha, hv']
    case neg => simp [ha, hne a ha]
  nodup := hs.perm.nodup_iff.mpr <| List.nodup_cons.mpr ⟨hh.nodup.not_mem_erase, hh.nodup.erase c⟩
  order := hs.order

-- The last job of a channel goes.
theorem erase (hh : TracksHeap v state heap) (hv' : v' c = none) (hne : ∀ a ≠ c, v' a = v a)
    (hs : h.Holds v'.time (heap.erase c)) : TracksHeap v' state h.heap where
  mem a := by
    rw [hs.perm.mem_iff, hh.nodup.mem_erase_iff, hh.mem]
    by_cases ha : a = c
    case pos => simp [ha, hv']
    case neg => simp [ha, hne a ha]
  nodup := hs.perm.nodup_iff.mpr <| hh.nodup.erase c
  order := hs.order

-- Jobs of other states do not matter.
theorem other (hh : TracksHeap v state heap) (hv : ∀ t, v c ≠ some (state, t))
    (hv' : ∀ t, v' c ≠ some (state, t)) (hne : ∀ a ≠ c, v' a = v a) : TracksHeap v' state heap where
  mem a := by
    rw [hh.mem]
    by_cases ha : a = c
    case pos => simp [ha, hv, hv']
    case neg => simp [hne a ha]
  nodup := hh.nodup
  order := hh.order.congr fun a ha => time_congr hne a fun hac => by
    have ⟨t, ht⟩ := (hh.mem a).mp ha
    exact hv t (hac ▸ ht)

end TracksHeap

namespace SchedulerImpl

def view (s : SchedulerImpl) : View :=
  fun c => (s.impls c).bind ChannelImpl.view

-- The timestamp by which `StateOrdering` compares a state.
def stateTime (s : SchedulerImpl) (state : Ptr) : Time :=
  match s.state2channelQueues state with
  | none     => 0
  | some chq =>
    match chq.heap.front? with
    | none     => 0
    | some top => s.view.time top

-- The state has jobs, and none of them is being executed under mutual exclusion.
def Runnable (s : SchedulerImpl) (state : Ptr) : Prop :=
  ∃ chq, s.state2channelQueues state = some chq ∧ chq.enabled = true ∧ chq.heap.heap ≠ []

-- The channel heaps are what the channels of `s` ask for.
structure TracksHeaps (s : SchedulerImpl) : Prop where
  known : ∀ c state t, s.view c = some (state, t) →
          (∃ chq, s.state2channelQueues state = some chq) ∧ t < kMaxTime
  heaps : ∀ state chq, s.state2channelQueues state = some chq →
          TracksHeap s.view state chq.heap.heap

-- So is `state_queue_`.
structure Tracks (s : SchedulerImpl) : Prop extends TracksHeaps s where
  mem   : ∀ state, state ∈ s.stateQueue.heap ↔ s.Runnable state
  nodup : s.stateQueue.heap.Nodup
  order : IsHeap s.stateTime s.stateQueue.heap

section Comparisons

variable {s : SchedulerImpl} {c : ChannelId} {state : Ptr} {t : Time}

-- A state without an entry looks like one whose entry is as it was made.
theorem runnable_iff_subscript :
    s.Runnable state ↔ (s.subscript state).enabled = true ∧ (s.subscript state).heap.heap ≠ [] := by
  cases hq : s.state2channelQueues state <;>
    simp [Runnable, subscript, hq, EnabledChannelHeap.new, SteadyHeap.empty]

theorem stateTime_eq_subscript :
    s.stateTime state = ((s.subscript state).heap.heap.head?.map s.view.time).getD 0 := by
  cases hq : s.state2channelQueues state
  case none => simp [stateTime, subscript, hq, EnabledChannelHeap.new, SteadyHeap.empty]
  case some chq =>
    cases hf : chq.heap.heap.head? <;> simp [stateTime, subscript, hq, SteadyHeap.front?, hf]

theorem exists_impl_of_view (h : s.view c = some (state, t)) :
    ∃ ch packet, s.impls c = some ch ∧ ch.isScheduled = true ∧ ch.singleThreadObject = state ∧
      ch.queuedPackets.front? = some packet ∧ ch.timestamp packet = t := by
  have ⟨ch, hch, hv⟩ := Option.bind_eq_some_iff.mp h
  simp only [ChannelImpl.view] at hv
  split at hv
  case isFalse => contradiction
  case isTrue hs =>
    have ⟨packet, hp, heq⟩ := Option.map_eq_some_iff.mp hv
    simp only [Prod.mk.injEq] at heq
    exact ⟨ch, packet, hch, hs, heq.1, hp, heq.2⟩

theorem deref_of_view (h : s.view c = some (state, t)) :
    ∃ ch, s.deref c = .ok ch ∧ ch.singleThreadObject = state := by
  have ⟨ch, _, hch, _, hst, _⟩ := exists_impl_of_view h
  exact ⟨ch, by simp [deref, hch], hst⟩

theorem peekNext_of_view (h : (s.view c).isSome) : s.peekNext c = .ok (s.view.time c) := by
  have ⟨(_, t), h⟩ := Option.isSome_iff_exists.mp h
  have ⟨ch, packet, hch, _, _, hp, ht⟩ := exists_impl_of_view h
  simp [peekNext, deref, hch, ChannelImpl.peekNext, hp, ht, View.time_eq h]

theorem channelOrdering_agrees {xs : List ChannelId} (h : ∀ c ∈ xs, (s.view c).isSome) :
    Agrees s.channelOrdering s.view.time xs := by
  intro a ha b hb
  simp [channelOrdering, peekNext_of_view (h a ha), peekNext_of_view (h b hb)]

theorem Runnable.exists_top (hs : s.TracksHeaps) (h : s.Runnable state) :
    ∃ top, s.frontChannel state = .ok top ∧ (s.view top).isSome ∧
      s.stateTime state = s.view.time top := by
  have ⟨chq, hq, _, hn⟩ := h
  have ⟨top, htop⟩ := Option.isSome_iff_exists.mp <| List.isSome_head?.mpr hn
  have htop : chq.heap.front? = some top := htop
  refine ⟨top, by simp [frontChannel, hq, htop], ?_, by simp [stateTime, hq, htop]⟩
  exact (hs.heaps state chq hq).isSome top <| List.mem_of_head? htop

theorem stateOrdering_agrees {xs : List Ptr} (hs : s.TracksHeaps) (h : ∀ x ∈ xs, s.Runnable x) :
    Agrees s.stateOrdering s.stateTime xs := by
  intro a ha b hb
  have ⟨ca, hca, hva, hta⟩ := (h a ha).exists_top hs
  have ⟨cb, hcb, hvb, htb⟩ := (h b hb).exists_top hs
  simp [stateOrdering, channelOrdering, hca, hcb, peekNext_of_view hva, peekNext_of_view hvb, hta,
    htb]

theorem peekFront_of_top {h : SteadyHeap ChannelId} {top : ChannelId} (hf : h.front? = some top)
    (hv : (s.view top).isSome) : s.peekFront h = .ok (s.view.time top) := by
  simp [peekFront, hf, peekNext_of_view hv]

end Comparisons

-- The scheduler is as `Tracks` wants it, except for the position of one state in `state_queue_`:
-- the others are there in the order of a key that is still right for all of them.
structure TracksExcept (s : SchedulerImpl) (state : Ptr) : Prop extends TracksHeaps s where
  mem   : ∀ x ≠ state, x ∈ s.stateQueue.heap ↔ s.Runnable x
  nodup : s.stateQueue.heap.Nodup
  order : ∃ key, IsHeap key s.stateQueue.heap ∧
          ∀ x ∈ s.stateQueue.heap, x ≠ state → s.stateTime x = key x

namespace TracksExcept

variable {s : SchedulerImpl} {state : Ptr}

-- Nothing has to be done where the state is there as it should be, at an unchanged time.
theorem tracks {key : Ptr → Time} (h : s.TracksExcept state)
    (ho : IsHeap key s.stateQueue.heap) (hk : ∀ x ∈ s.stateQueue.heap, s.stateTime x = key x)
    (hm : state ∈ s.stateQueue.heap ↔ s.Runnable state) : s.Tracks where
  known := h.known
  heaps := h.heaps
  mem x := by
    by_cases hx : x = state
    case pos => exact hx ▸ hm
    case neg => exact h.mem x hx
  nodup := h.nodup
  order := ho.congr hk

theorem forcePopState_spec (h : s.TracksExcept state) (hm : state ∈ s.stateQueue.heap) :
    ∃ q : SteadyHeap Ptr, s.forcePopState state = .ok (s.setStateQueue q) ∧
      q.Holds s.stateTime (s.stateQueue.heap.erase state) ∧ state ∉ q.heap ∧
      (s.setStateQueue q).TracksExcept state := by
  have ⟨key, ho, hk⟩ := h.order
  have hr : ∀ x ∈ s.stateQueue.heap.erase state, s.Runnable x := fun x hx => by
    have ⟨hne, hx⟩ := h.nodup.mem_erase_iff.mp hx
    exact (h.mem x hne).mp hx
  have ⟨q, hq, hh, _⟩ := SteadyHeap.forcePopHeap_spec ho h.nodup hm hk
    (stateOrdering_agrees h.toTracksHeaps hr)
  have hn : state ∉ q.heap := fun hs => h.nodup.not_mem_erase <| hh.perm.mem_iff.mp hs
  refine ⟨q, ?_, hh, hn, ⟨h.known, h.heaps⟩, fun x hx => ?_, ?_, s.stateTime, hh.order, ?_⟩
  case refine_1 => simp [forcePopState, hq, SteadyHeap.count, List.count_eq_zero.mpr hn]
  case refine_2 =>
    rw [← show s.Runnable x ↔ (s.setStateQueue q).Runnable x from .rfl, ← h.mem x hx]
    exact hh.perm.mem_iff.trans <| h.nodup.mem_erase_iff.trans <| by simp [hx]
  case refine_3 => exact hh.perm.nodup_iff.mpr <| h.nodup.erase state
  case refine_4 => exact fun _ _ _ => rfl

theorem pushState_spec (h : s.TracksExcept state) (hm : state ∉ s.stateQueue.heap)
    (hr : s.Runnable state) :
    ∃ q : SteadyHeap Ptr, s.pushState state = .ok (s.setStateQueue q) ∧
      q.Holds s.stateTime (state :: s.stateQueue.heap) ∧ (s.setStateQueue q).Tracks := by
  have ⟨key, ho, hk⟩ := h.order
  have hne : ∀ x ∈ s.stateQueue.heap, x ≠ state := fun x hx hxs => hm (hxs ▸ hx)
  have hr' : ∀ x ∈ state :: s.stateQueue.heap, s.Runnable x := fun x hx => by
    cases List.mem_cons.mp hx
    case inl hx => exact hx ▸ hr
    case inr hx => exact (h.mem x (hne x hx)).mp hx
  have ⟨q, hq, hh, _⟩ := SteadyHeap.pushHeap_spec state
    (ho.congr fun x hx => hk x hx (hne x hx)) (stateOrdering_agrees h.toTracksHeaps hr')
  refine ⟨q, ?_, hh, ⟨h.known, h.heaps⟩, fun x => ?_, ?_, hh.order⟩
  case refine_1 => simp [pushState, hq]
  case refine_2 =>
    rw [← show s.Runnable x ↔ (s.setStateQueue q).Runnable x from .rfl]
    refine hh.perm.mem_iff.trans ?_
    by_cases hx : x = state
    case pos => simp [hx, hr]
    case neg => simp [hx, h.mem x hx]
  case refine_3 => exact hh.perm.nodup_iff.mpr <| List.nodup_cons.mpr ⟨hm, h.nodup⟩

-- A state in `state_queue_` can always be put where it belongs now.
theorem requeue_spec (h : s.TracksExcept state) (hm : state ∈ s.stateQueue.heap)
    (hr : s.Runnable state) :
    ∃ q q' : SteadyHeap Ptr, s.forcePopState state = .ok (s.setStateQueue q) ∧
      (s.setStateQueue q).pushState state = .ok (s.setStateQueue q') ∧
      q'.heap.Perm s.stateQueue.heap ∧ (s.setStateQueue q').Tracks := by
  have ⟨q, hq, hh, hn, h⟩ := h.forcePopState_spec hm
  have ⟨q', hq', hh', h'⟩ := h.pushState_spec hn hr
  refine ⟨q, q', hq, hq', ?_, h'⟩
  exact hh'.perm.trans <| (hh.perm.cons state).trans (List.perm_cons_erase hm).symm

end TracksExcept
end SchedulerImpl
end PipeRT
