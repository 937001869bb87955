import PipeRT.System.Invariant

namespace PipeRT

instance (y : System) (a : Action) : Decidable (machine.Guard y a) :=
  inferInstanceAs (Decidable (y.Guard a))

variable {y : System} {a : Action}

namespace SchedulerImpl

variable {s : SchedulerImpl} {c : ChannelId} {state : Ptr}

-- The heaps hold what the packet queues and the enabled flags ask for, once each.
structure HeapsInStep (s : SchedulerImpl) : Prop where
  channels : ∀ c ch state, s.impls c = some ch →
             (s.subscript state).heap.count c =
             if ch.isScheduled ∧ ch.singleThreadObject = state ∧ ch.queuedPackets.heap ≠ [] then 1 else 0
  states   : ∀ state, s.stateQueue.count state =
             if (s.subscript state).enabled ∧ (s.subscript state).heap.heap ≠ [] then 1 else 0

theorem WF.tracksHeap (h : s.WF) (state : Ptr) :
    TracksHeap s.view state (s.subscript state).heap.heap := by
  cases hq : s.state2channelQueues state
  case some chq => exact subscript_eq hq ▸ h.heaps state chq hq
  case none =>
    have hno : ∀ c, ¬∃ t, s.view c = some (state, t) := fun c ⟨t, hv⟩ => by
      have ⟨⟨_, hq'⟩, _⟩ := h.known c state t hv
      simp [hq] at hq'
    have hnil : TracksHeap s.view state [] := ⟨by simpa using hno, List.nodup_nil, .nil⟩
    simpa [subscript, hq, EnabledChannelHeap.new, SteadyHeap.empty] using hnil

theorem WF.mem_subscript {ch : ChannelImpl} (h : s.WF) (hc : s.impls c = some ch) (state : Ptr) :
    c ∈ (s.subscript state).heap.heap ↔
    ch.isScheduled ∧ ch.singleThreadObject = state ∧ ch.queuedPackets.heap ≠ [] := by
  rw [(h.tracksHeap state).mem, view_eq_of_impl hc, ChannelImpl.view]
  cases hs : ch.isScheduled
  case false => simp
  case true  => cases hq : ch.queuedPackets.heap <;> simp [SteadyHeap.front?, hq]

theorem WF.heapsInStep (h : s.WF) : s.HeapsInStep where
  channels c ch state hc := by
    have hm := h.mem_subscript hc state
    split
    case isTrue hp  => exact List.count_eq_one_of_mem (h.tracksHeap state).nodup (hm.mpr hp)
    case isFalse hp => exact List.count_eq_zero.mpr (mt hm.mp hp)
  states state := by
    have hm := (h.mem state).trans runnable_iff_subscript
    split
    case isTrue hp  => exact List.count_eq_one_of_mem h.nodup (hm.mpr hp)
    case isFalse hp => exact List.count_eq_zero.mpr (mt hm.mp hp)

end SchedulerImpl

-- Two states with jobs. A worker executes the job of a channel with a monitor object, another job
-- of which is in the queue.
def twoStates : List Action := [
  .createChannel 1 "stateless" 2 nullptr true, .createChannel 2 "stateful" 2 7 true,
  .start, .spawn, .spawn, .spawn,
  .acquire 2 0, .advance (.acquiring 2 0 (.round 0)) 0, .advance (.acquiring 2 0 (.acquired 0)) 0,
  .advance (.filling 2 0) 0, .advance (.pushing 2 0) 0,
  .acquire 1 3, .advance (.acquiring 1 3 (.round 0)) 0, .advance (.acquiring 1 3 (.acquired 0)) 0,
  .advance (.filling 1 0) 0, .advance (.pushing 1 0) 0,
  .acquire 2 4, .advance (.acquiring 2 4 (.round 0)) 0, .advance (.acquiring 2 4 (.acquired 1)) 0,
  .advance (.filling 2 1) 0, .advance (.pushing 2 1) 0,
  .enter 0, .serve 0, .enter 1]

theorem reachable_twoStates :
    ∃ y, machine.Reachable System.Clean y ∧
      y.sched.workers = [.executing 7 2 0, .locking] ∧ y.sched.stateQueue.heap = [nullptr] :=
  Machine.exists_reachable_of_replay (s := .new 2 false 5) System.Clean twoStates
    ⟨2, false, 5, by decide, by decide, rfl⟩ (by decide)

-- No assertion fails, because the two levels of heaps are in step with the channels.
theorem heaps_in_step (h : machine.Reachable System.Clean y) :
    y.sched.HeapsInStep ∧ ∀ a, y.Guard a → y.Clean a → ∃ y', y.exec a = .ok y' := by
  have hi := safe.reachable h
  refine ⟨hi.wf.heapsInStep, fun a hg hc => ?_⟩
  have ⟨y', he, _⟩ := System.outcome hi hg hc
  exact ⟨y', he⟩

theorem heaps_in_step_twoStates :
    ∃ y : System, y.sched.workers = [.executing 7 2 0, .locking] ∧
      y.sched.HeapsInStep ∧ ∀ a, y.Guard a → y.Clean a → ∃ y', y.exec a = .ok y' :=
  have ⟨y, hr, hw, _⟩ := reachable_twoStates
  ⟨y, hw, heaps_in_step hr⟩

-- Whatever the operations compare in the course of a step has a key.
theorem comparisons_have_keys (h : machine.Reachable System.Clean y) (hg : y.Guard a)
    (hc : y.Clean a) :
    y.exec a ≠ .error .peekEmpty ∧ y.exec a ≠ .error .emptyState ∧
    y.exec a ≠ .error .unknownState ∧ y.exec a ≠ .error .emptyFront :=
  ⟨safe.not_error h hg hc _, safe.not_error h hg hc _, safe.not_error h hg hc _,
    safe.not_error h hg hc _⟩

theorem comparisons_have_keys_twoStates :
    ∃ y : System, y.sched.workers = [.executing 7 2 0, .locking] ∧
      y.exec (.serve 1) ≠ .error .peekEmpty ∧ y.exec (.serve 1) ≠ .error .emptyState ∧
      y.exec (.serve 1) ≠ .error .unknownState ∧ y.exec (.serve 1) ≠ .error .emptyFront :=
  have ⟨y, hr, hw, _⟩ := reachable_twoStates
  ⟨y, hw, comparisons_have_keys hr (.inl (by rw [hw]; rfl)) trivial⟩

-- The heaps refer to registered channels only.
structure SchedulerImpl.Registered (s : SchedulerImpl) : Prop where
  channels : ∀ state chq, s.state2channelQueues state = some chq →
             ∀ c ∈ chq.heap.heap, c ∈ s.channels
  states   : ∀ state ∈ s.stateQueue.heap, ∃ chq, s.state2channelQueues state = some chq ∧
             chq.heap.heap ≠ [] ∧ ∀ c ∈ chq.heap.heap, c ∈ s.channels

theorem SchedulerImpl.WF.refersToRegistered {s : SchedulerImpl} (h : s.WF) : s.Registered := by
  have hch : ∀ state chq, s.state2channelQueues state = some chq →
      ∀ c ∈ chq.heap.heap, c ∈ s.channels := fun state chq hq c hc => by
    have ⟨_, hv⟩ := ((h.heaps state chq hq).mem c).mp hc
    have ⟨ch, _, himpl, _⟩ := exists_impl_of_view hv
    exact (h.live c).mpr ⟨ch, himpl⟩
  refine ⟨hch, fun state hs => ?_⟩
  have ⟨chq, hq, _, hn⟩ := (h.mem state).mp hs
  exact ⟨chq, hq, hn, hch state chq hq⟩

-- As long as no channel goes whose jobs are left over, nobody looks at a destroyed channel.
theorem registered_of_clean (h : machine.Reachable System.Clean y) :
    y.sched.Registered ∧ ∀ a, y.Guard a → y.Clean a → y.exec a ≠ .error .dangling :=
  ⟨(safe.reachable h).wf.refersToRegistered, fun _ hg hc => safe.not_error h hg hc _⟩

theorem registered_of_clean_twoStates :
    ∃ y : System, y.sched.stateQueue.heap = [nullptr] ∧ y.sched.Registered ∧
      ∀ a, y.Guard a → y.Clean a → y.exec a ≠ .error .dangling :=
  have ⟨y, hr, _, hq⟩ := reachable_twoStates
  ⟨y, hq, registered_of_clean hr⟩

-- Two channels with one monitor object, the first of which is destroyed while it has a job.
def leftover : List Action := [
  .createChannel 1 "first" 1 7 true, .createChannel 2 "second" 1 7 true,
  .acquire 1 0, .advance (.acquiring 1 0 (.round 0)) 0, .advance (.acquiring 1 0 (.acquired 0)) 0,
  .advance (.filling 1 0) 0, .advance (.pushing 1 0) 0,
  .destroyChannel 1,
  .acquire 2 3, .advance (.acquiring 2 3 (.round 0)) 0, .advance (.acquiring 2 3 (.acquired 0)) 0,
  .advance (.filling 2 0) 0]

-- The next `Push` on the second channel compares it with the destroyed one.
theorem leftover_dangles :
    ∃ y, machine.Reachable (fun _ _ => True) y ∧ ¬y.sched.Registered ∧
      y.Guard (.advance (.pushing 2 0) 0) ∧
      y.exec (.advance (.pushing 2 0) 0) = .error .dangling := by
  have ⟨y, hr, hq, hch, hg, hf⟩ := Machine.exists_reachable_of_replay (M := machine)
    (s := .new 1 false 5) (fun _ _ => True) leftover
    (P := fun y => (y.sched.subscript 7).heap.heap = [1] ∧ y.sched.channels = [2] ∧
      y.Guard (.advance (.pushing 2 0) 0) ∧
      machine.fault? y (.advance (.pushing 2 0) 0) = some .dangling)
    ⟨1, false, 5, by decide, by decide, rfl⟩ (by decide)
  refine ⟨y, hr, fun hreg => ?_, hg, Machine.exec_eq_of_fault? hf⟩
  cases hs : y.sched.state2channelQueues 7
  case none => simp [SchedulerImpl.subscript, hs, EnabledChannelHeap.new, SteadyHeap.empty] at hq
  case some chq =>
    rw [SchedulerImpl.subscript_eq hs] at hq
    have := hreg.channels 7 chq hs 1 (by simp [hq])
    simp [hch] at this

end PipeRT
