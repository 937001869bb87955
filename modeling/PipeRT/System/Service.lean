import PipeRT.System.Queues

namespace PipeRT

variable {y y' : System} {a : Action}

-- At most one worker at a time is occupied with a state, and the state is disabled meanwhile.
theorem mutual_exclusion (h : machine.Reachable System.Clean y) :
    (∀ state c p, .executing state c p ∈ y.sched.workers →
      ∃ ch, y.sched.impls c = some ch ∧ ch.singleThreadObject = state) ∧
    (∀ state, y.sched.workers.countP (Worker.occupies state) ≤ 1) ∧
    (∀ state, (y.sched.subscript state).enabled = false ↔
      ∃ w ∈ y.sched.workers, w.occupies state = true) ∧
    (y.sched.running = false → ∀ state, (y.sched.subscript state).enabled = true) := by
  have hi := safe.reachable h
  have hx := hi.staffed.exclusive
  have hiff (state : Ptr) : (y.sched.subscript state).enabled = false ↔
      ∃ w ∈ y.sched.workers, w.occupies state = true := by
    rw [← List.countP_pos_iff, hx]
    cases (y.sched.subscript state).enabled <;> simp
  refine ⟨hi.staffed.executing, fun state => ?_, hiff, fun hr state => ?_⟩
  · rw [hx]
    split <;> omega
  · have hs : y.control = .stopped := by
      have := hi.phase.running.symm.trans hr
      cases hcon : y.control <;> simp [hcon, Control.isRunning] at this ⊢
    have := mt (hiff state).mp (by simp [hi.phase.idle hs])
    simpa using this

theorem mutual_exclusion_twoStates :
    ∃ y : System, y.sched.workers = [.executing 7 2 0, .locking] ∧
      (∀ state c p, .executing state c p ∈ y.sched.workers →
        ∃ ch, y.sched.impls c = some ch ∧ ch.singleThreadObject = state) ∧
      (∀ state, y.sched.workers.countP (Worker.occupies state) ≤ 1) ∧
      (∀ state, (y.sched.subscript state).enabled = false ↔
        ∃ w ∈ y.sched.workers, w.occupies state = true) ∧
      (y.sched.running = false → ∀ state, (y.sched.subscript state).enabled = true) :=
  have ⟨y, hr, hw, _⟩ := reachable_twoStates
  ⟨y, hw, mutual_exclusion hr⟩

section Workers

variable {s s' : SchedulerImpl} {c : ChannelId} {ch : ChannelImpl} {wake : Option Nat} {i : Nat}
variable {w w₀ : Worker}

theorem mem_setWorker (hi : s.workers[i]? = some w₀) : w ∈ (s.setWorker i w).workers :=
  have ⟨hlt, _⟩ := List.getElem?_eq_some_iff.mp hi
  List.mem_set hlt w

-- What a job can do to the workers: one that sleeps is woken up, or no state gets into the queue.
theorem SchedulerImpl.Requeued.workers_cases
    (hr : SchedulerImpl.Requeued (s.setImpl c ch) s' wake) :
    (s'.workers = s.workers ∧ s'.stateQueue.heap ⊆ s.stateQueue.heap) ∨
    .waiting ∉ s'.workers ∨ .notified ∈ s'.workers := by
  obtain hr | ⟨wake, _, hw⟩ := hr.workers
  · exact .inl hr
  · rw [setImpl_workers] at hw
    obtain ⟨hn, he⟩ | ⟨i, hi, he⟩ := Worker.notifyOne_cases s.workers wake
    · exact .inr <| .inl <| by rwa [hw, he]
    · have ⟨hlt, _⟩ := List.getElem?_eq_some_iff.mp hi
      exact .inr <| .inr <| by rw [hw, he]; exact List.mem_set hlt _

end Workers

namespace System

-- A job never waits for workers that all sleep.
def Awake (y : System) : Prop :=
  y.sched.stateQueue.heap ≠ [] → y.sched.workers ≠ [] → ∃ w ∈ y.sched.workers, w ≠ .waiting

theorem Awake.requeued {s' : SchedulerImpl} {c : ChannelId} {ch : ChannelImpl} {wake : Option Nat}
    (h : y.Awake) (hr : SchedulerImpl.Requeued (y.sched.setImpl c ch) s' wake)
    (hq : s'.stateQueue.heap ≠ []) (hn : s'.workers ≠ []) : ∃ w ∈ s'.workers, w ≠ .waiting := by
  obtain ⟨hw, hsub⟩ | hw | hw := hr.workers_cases
  · rw [hw] at hn ⊢
    exact h (fun hnil => hq <| List.subset_nil.mp <| hnil ▸ hsub) hn
  · have ⟨w, hm⟩ := List.exists_mem_of_ne_nil _ hn
    exact ⟨w, hm, fun he => hw (he ▸ hm)⟩
  · exact ⟨_, hw, nofun⟩

theorem Awake.step (h : y.Awake) (ho : Outcome y a y') : y'.Awake := by
  intro hq hn
  cases ho
  case tick | started | stop | invalid | acquire | start => exact h hq hn
  case created hn' hcr =>
    have hw := congrArg SchedulerImpl.workers hcr.frame
    exact hw ▸ h (hcr.queue ▸ hq) (hw ▸ hn)
  case destroyed hch hv hd =>
    have hw := congrArg SchedulerImpl.workers hd.frame
    have hs := congrArg SchedulerImpl.stateQueue hd.frame
    exact hw ▸ h (hs ▸ hq) (hw ▸ hn)
  case spawned => exact ⟨.looping, List.mem_append_right _ (List.mem_singleton_self _), nofun⟩
  case notifiedAll =>
    have ⟨w, hm⟩ := List.exists_mem_of_ne_nil _ hn
    have ⟨w₀, _, he⟩ := List.mem_map.mp hm
    refine ⟨w, hm, fun hw => ?_⟩
    split at he <;> simp_all
  case joined => contradiction
  case polled hr _ => exact h.requeued hr hq hn
  case advanced hadv => exact h.requeued hadv.requeued hq hn
  case entered hi =>
    refine ⟨_, mem_setWorker hi, ?_⟩
    split <;> nofun
  case slept hk hnil => contradiction
  case left hi _ _ =>
    have ⟨_, hi, _⟩ := SchedulerImpl.exists_served hi
    exact ⟨_, mem_setWorker hi, nofun⟩
  case took hi _ _ _ _ htk _ =>
    have ⟨_, hi, _⟩ := SchedulerImpl.exists_served <| htk.workers ▸ hi
    exact ⟨_, mem_setWorker hi, nofun⟩
  case woken hi => exact ⟨_, mem_setWorker hi, nofun⟩
  case executed hi _ => exact ⟨_, mem_setWorker hi, nofun⟩
  case returned hi => exact ⟨_, mem_setWorker hi, nofun⟩
  case finished hi _ hf => exact ⟨_, mem_setWorker (hf.workers ▸ hi), nofun⟩

theorem awake (h : machine.Reachable Clean y) : y.Awake := by
  refine h.induction (fun _ => ?_) fun y a y' hr ha hc e => ?_
  · rintro ⟨_, _, _, _, _, rfl⟩
    exact fun hq => absurd rfl hq
  · exact ha.step <| (safe.reachable hr).outcome_of_step hc e

end System

-- No job is stranded with every worker asleep, and no worker is asleep that `Stop` waits for.
theorem no_lost_wakeup (h : machine.Reachable System.Clean y) :
    (y.sched.keepRunning = true → y.sched.stateQueue.heap ≠ [] →
      (∃ i < y.sched.workersNumber, y.sched.workers[i]? ≠ some .waiting) ∧
      (y.sched.workers ≠ [] → ∃ w ∈ y.sched.workers, w ≠ .waiting)) ∧
    (y.control = .joining → .waiting ∉ y.sched.workers) := by
  have hp := (safe.reachable h).phase
  refine ⟨fun hk hq => ⟨?_, System.awake h hq⟩, hp.awake⟩
  have hlen := hp.complete <| hp.keeps.symm.trans hk
  by_cases hn : y.sched.workers = []
  case pos => exact ⟨0, hp.number, by simp [hn]⟩
  case neg =>
    have ⟨w, hm, hw⟩ := System.awake h hq hn
    have ⟨i, hi⟩ := List.getElem?_of_mem hm
    have ⟨hlt, _⟩ := List.getElem?_eq_some_iff.mp hi
    exact ⟨i, by omega, by simpa [hi] using hw⟩

-- Two workers, one of which falls asleep before the scheduler is stopped.
def stopAsleep : List Action := [
  .createChannel 1 "stateless" 2 nullptr true, .start, .spawn, .spawn, .spawn,
  .enter 0, .serve 0, .stop, .notifyAll]

theorem no_lost_wakeup_twoStates :
    (∃ y : System, y.sched.keepRunning = true ∧ y.sched.stateQueue.heap = [nullptr] ∧
      (∃ i < y.sched.workersNumber, y.sched.workers[i]? ≠ some .waiting) ∧
      ∃ w ∈ y.sched.workers, w ≠ .waiting) ∧
    ∃ y : System, y.control = .joining ∧ .waiting ∉ y.sched.workers := by
  have ⟨y, hr, hk, hn, hq⟩ := Machine.exists_reachable_of_replay (M := machine)
    (s := .new 2 false 5) System.Clean twoStates
    (P := fun y => y.sched.keepRunning = true ∧ y.sched.workers ≠ [] ∧
      y.sched.stateQueue.heap = [nullptr])
    ⟨2, false, 5, by decide, by decide, rfl⟩ (by decide)
  have ⟨y', hr', hj⟩ := Machine.exists_reachable_of_replay (M := machine)
    (s := .new 2 false 5) System.Clean stopAsleep
    (P := fun y => y.control = .joining) ⟨2, false, 5, by decide, by decide, rfl⟩ (by decide)
  have ⟨hi, hw⟩ := (no_lost_wakeup hr).1 hk (by simp [hq])
  exact ⟨⟨y, hk, hq, hi, hw hn⟩, y', hj, (no_lost_wakeup hr').2 hj⟩

-- The worker is awake or notified, and outside of `Execute`.
def Worker.isSpare : Worker → Bool
  | looping | locking | notified | finishing _ => true
  | waiting | executing .. | exited            => false

-- The packets that wait for a worker, in all channels of a state.
def SchedulerImpl.jobsOf (s : SchedulerImpl) (state : Ptr) : List (ChannelId × Slot) :=
  s.channels.flatMap fun c =>
    match s.impls c with
    | none    => []
    | some ch =>
      if ch.isScheduled ∧ ch.singleThreadObject = state then ch.queuedPackets.heap.map (c, ·) else []

-- A worker that takes a packet now leaves a stateless one behind.
def SchedulerImpl.LeavesStateless (s : SchedulerImpl) : Prop :=
  match s.stateQueue.front? with
  | none       => False
  | some state =>
    if state = nullptr then 2 ≤ (s.jobsOf nullptr).length else nullptr ∈ s.stateQueue.heap

instance {s : SchedulerImpl} : Decidable s.LeavesStateless :=
  match h : s.stateQueue.front? with
  | none       => .isFalse (by simp [SchedulerImpl.LeavesStateless, h])
  | some state => decidable_of_iff
    (if state = nullptr then 2 ≤ (s.jobsOf nullptr).length else nullptr ∈ s.stateQueue.heap)
    (by simp [SchedulerImpl.LeavesStateless, h])

namespace System

-- No worker leaves a stateless packet behind that only sleeping workers could take care of.
def Attended (y : System) : Action → Prop
  | .serve i => y.sched.keepRunning = true → y.sched.LeavesStateless →
                .waiting ∈ y.sched.workers → (y.sched.workers.eraseIdx i).any Worker.isSpare = true
  | _        => True

instance {y : System} : DecidablePred y.Attended
  | .serve _ => inferInstanceAs (Decidable (_ → _))
  | .tick _ | .createChannel .. | .destroyChannel _ | .start | .spawn | .stop | .notifyAll | .join
  | .setStateInvalid | .acquire .. | .poll _ | .advance .. | .enter _ | .wakeUp _ | .executed ..
  | .finish _ => .isTrue trivial

-- Stateless packets do not wait while a worker sleeps, unless another one is about to look.
def Parallel (y : System) : Prop :=
  y.sched.keepRunning = true → nullptr ∈ y.sched.stateQueue.heap → .waiting ∈ y.sched.workers →
  ∃ w ∈ y.sched.workers, w.isSpare = true

theorem Parallel.requeued {s' : SchedulerImpl} {c : ChannelId} {ch : ChannelImpl} {wake : Option Nat}
    (h : y.Parallel) (hr : SchedulerImpl.Requeued (y.sched.setImpl c ch) s' wake)
    (hk : s'.keepRunning = true) (hq : nullptr ∈ s'.stateQueue.heap) (hw : .waiting ∈ s'.workers) :
    ∃ w ∈ s'.workers, w.isSpare = true := by
  obtain ⟨hws, hsub⟩ | hno | hm := hr.workers_cases
  · have hk' : s'.keepRunning = y.sched.keepRunning := by rw [hr.frame]; rfl
    exact hws ▸ h (hk' ▸ hk) (hsub hq) (hws ▸ hw)
  · contradiction
  · exact ⟨_, hm, rfl⟩

theorem mem_jobsOf {s : SchedulerImpl} {c : ChannelId} {ch : ChannelImpl} {p : Slot} (h : s.WF)
    (hc : s.impls c = some ch) (hs : ch.isScheduled = true) (hp : p ∈ ch.queuedPackets.heap) :
    (c, p) ∈ s.jobsOf ch.singleThreadObject :=
  List.mem_flatMap.mpr ⟨c, (h.live c).mpr ⟨ch, hc⟩, by simpa [hc, hs] using hp⟩

theorem two_le_length_of_ne {α : Type} {xs : List α} {a b : α} (ha : a ∈ xs) (hb : b ∈ xs)
    (hne : a ≠ b) : 2 ≤ xs.length := by
  match xs, ha, hb with
  | [x], ha, hb =>
    exact absurd ((List.mem_singleton.mp ha).trans (List.mem_singleton.mp hb).symm) hne
  | _ :: _ :: _, _, _ => simp

-- What is still in the queue after a take was there before, besides the packet that was taken.
theorem leavesStateless_of_taken {s' : SchedulerImpl} {state : Ptr} {c : ChannelId} {ch : ChannelImpl}
    {p : Slot} {rest : List Slot} {q : SteadyHeap Slot} (h : y.Inv) (hwf : s'.WF)
    (hnext : y.sched.Next state c ch p) (hf : ch.queuedPackets.heap = p :: rest)
    (hperm : q.heap.Perm rest) (htk : y.sched.Taken s' state c (ch.popped q p false y.now))
    (hq : nullptr ∈ s'.stateQueue.heap) : y.sched.LeavesStateless := by
  rw [SchedulerImpl.LeavesStateless, hnext.front]
  by_cases hs : state = nullptr
  case neg => simpa [hs] using htk.queue hq
  case pos =>
    simp only [hs, if_true]
    have hmem := mem_jobsOf h.wf hnext.impl hnext.scheduled <| List.mem_of_head? hnext.packet
    rw [hnext.state_eq, hs] at hmem
    have ⟨chq, hchq, _, hn⟩ := (hwf.mem nullptr).mp hq
    have ⟨c', hc'⟩ := List.exists_mem_of_ne_nil _ hn
    have ⟨_, hv⟩ := ((hwf.heaps nullptr chq hchq).mem c').mp hc'
    have ⟨ch', p', himpl, hsch, hst, hp', _⟩ := SchedulerImpl.exists_impl_of_view hv
    have hp' := List.mem_of_head? hp'
    rw [htk.impls] at himpl
    by_cases hcc : c' = c
    case neg =>
      have himpl : y.sched.impls c' = some ch' := by simpa [hcc] using himpl
      have hmem' := mem_jobsOf h.wf himpl hsch hp'
      exact two_le_length_of_ne hmem (hst ▸ hmem') fun he => hcc (congrArg Prod.fst he).symm
    case pos =>
      obtain rfl : ch.popped q p false y.now = ch' := by simpa [hcc] using himpl
      rw [ChannelImpl.popped_queuedPackets, hperm.mem_iff] at hp'
      have hnd := hf ▸ (h.wf.sorted c ch hnext.impl).nodup
      have hne : p ≠ p' := fun he => (List.nodup_cons.mp hnd).1 (he ▸ hp')
      have hmem' := mem_jobsOf h.wf hnext.impl hnext.scheduled (p := p') (by simp [hf, hp'])
      rw [hnext.state_eq, hs] at hmem'
      exact two_le_length_of_ne hmem hmem' fun he => hne (congrArg Prod.snd he)

theorem Parallel.step (h : y.Parallel) (hi : y.Inv) (hi' : y'.Inv) (hat : y.Attended a)
    (hg : y.Guard a) (ho : Outcome y a y') : y'.Parallel := by
  intro hk hq hw
  cases ho
  case tick | started | invalid | acquire => exact h hk hq hw
  case created hn' hcr =>
    have hws := congrArg SchedulerImpl.workers hcr.frame
    have hks := congrArg SchedulerImpl.keepRunning hcr.frame
    exact hws ▸ h (hks ▸ hk) (hcr.queue ▸ hq) (hws ▸ hw)
  case destroyed hch hv hd =>
    have hws := congrArg SchedulerImpl.workers hd.frame
    have hks := congrArg SchedulerImpl.keepRunning hd.frame
    have hs := congrArg SchedulerImpl.stateQueue hd.frame
    exact hws ▸ h (hks ▸ hk) (hs ▸ hq) (hws ▸ hw)
  case start => simp [hi.phase.idle hg.1] at hw
  case spawned => exact ⟨.looping, List.mem_append_right _ (List.mem_singleton_self _), rfl⟩
  case stop => contradiction
  case notifiedAll => exact absurd hw <| hi'.phase.awake rfl
  case joined => contradiction
  case polled hr _ => exact h.requeued hr hk hq hw
  case advanced hadv => exact h.requeued hadv.requeued hk hq hw
  case entered hi =>
    have hk : y.sched.keepRunning = true := hk
    exact ⟨_, mem_setWorker hi, by simp [hk, Worker.isSpare]⟩
  case slept hnil => exact absurd (hnil ▸ hq) List.not_mem_nil
  case left hk' _ => exact absurd (hk'.symm.trans hk) Bool.false_ne_true
  case took i state c ch p rest q s' hi'' hnext hf hperm hserve htk hm =>
    have hwf : s'.WF := hi'.wf.congr rfl rfl rfl rfl rfl
    have hks : s'.keepRunning = y.sched.keepRunning := by rw [htk.frame]
    have hw : .waiting ∈ y.sched.workers := by
      cases List.mem_or_eq_of_mem_set hw
      case inl hw => exact htk.workers ▸ hw
      case inr he => contradiction
    have hspare := hat (hks ▸ hk) (leavesStateless_of_taken hi hwf hnext hf hperm htk hq) hw
    have ⟨w, hm, hsp⟩ := List.any_eq_true.mp hspare
    refine ⟨w, ?_, hsp⟩
    change w ∈ s'.workers.set i _
    rw [htk.workers]
    have ⟨j, hne, hj⟩ := List.mem_eraseIdx_iff_getElem?.mp hm
    exact List.mem_of_getElem? <| (List.getElem?_set_ne hne.symm).trans hj
  case woken hi => exact ⟨_, mem_setWorker hi, rfl⟩
  case executed hi _ => exact ⟨_, mem_setWorker hi, rfl⟩
  case returned hi => exact ⟨_, mem_setWorker hi, rfl⟩
  case finished hi _ hf => exact ⟨_, mem_setWorker (hf.workers ▸ hi), rfl⟩

theorem parallel (h : machine.Reachable (fun y a => y.Clean a ∧ y.Attended a) y) : y.Parallel := by
  refine h.induction (fun _ => ?_) fun y a y' hr hp ha e => ?_
  · rintro ⟨_, _, _, _, _, rfl⟩
    exact nofun
  · have hr : machine.Reachable Clean y := hr.mono fun _ _ => And.left
    have hi := safe.reachable hr
    exact hp.step hi (safe.reachable <| hr.step ha.1 e) ha.2 e.guard <| hi.outcome_of_step ha.1 e

end System

-- As long as workers do not leave stateless packets to the workers that sleep, no such packet waits
-- for a busy worker while another one sleeps.
theorem parallel_of_attended
    (h : machine.Reachable (fun y a => y.Clean a ∧ y.Attended a) y)
    (hk : y.sched.keepRunning = true) (hq : nullptr ∈ y.sched.stateQueue.heap)
    (hw : .waiting ∈ y.sched.workers) : ∃ w ∈ y.sched.workers, w.isSpare = true :=
  System.parallel h hk hq hw

-- Two workers fall asleep before two stateless packets arrive, the earlier one first.
def twoPackets : List Action := [
  .createChannel 1 "stateless" 2 nullptr true, .start, .spawn, .spawn, .spawn,
  .enter 0, .serve 0, .enter 1, .serve 1,
  .acquire 1 0, .advance (.acquiring 1 0 (.round 0)) 0, .advance (.acquiring 1 0 (.acquired 0)) 0,
  .advance (.filling 1 0) 0, .advance (.pushing 1 0) 0,
  .acquire 1 1, .advance (.acquiring 1 1 (.round 0)) 0, .advance (.acquiring 1 1 (.acquired 1)) 0,
  .advance (.filling 1 1) 0, .advance (.pushing 1 1) 0]

theorem parallel_of_attended_twoPackets :
    ∃ y : System, y.sched.workers = [.notified, .waiting] ∧ (y.sched.jobsOf nullptr).length = 2 ∧
      ∃ w ∈ y.sched.workers, w.isSpare = true :=
  have ⟨y, hr, hk, hq, hw, hl⟩ := Machine.exists_reachable_of_replay (M := machine)
    (s := .new 2 false 5) (fun y a => y.Clean a ∧ y.Attended a) twoPackets
    (P := fun y => y.sched.keepRunning = true ∧ y.sched.stateQueue.heap = [nullptr] ∧
      y.sched.workers = [.notified, .waiting] ∧ (y.sched.jobsOf nullptr).length = 2)
    ⟨2, false, 5, by decide, by decide, rfl⟩ (by decide)
  ⟨y, hw, hl, parallel_of_attended hr hk (by simp [hq]) (by simp [hw])⟩

-- The worker that was notified takes the earlier packet and leaves the other one to nobody.
theorem twoPackets_stranded :
    ∃ y, machine.Reachable System.Clean y ∧ y.sched.keepRunning = true ∧
      nullptr ∈ y.sched.stateQueue.heap ∧ y.sched.workers = [.executing nullptr 1 0, .waiting] ∧
      ¬∃ w ∈ y.sched.workers, w.isSpare = true := by
  have ⟨y, hr, hk, hq, hw⟩ := Machine.exists_reachable_of_replay (M := machine)
    (s := .new 2 false 5) System.Clean (twoPackets ++ [.serve 0])
    (P := fun y => y.sched.keepRunning = true ∧ y.sched.stateQueue.heap = [nullptr] ∧
      y.sched.workers = [.executing nullptr 1 0, .waiting])
    ⟨2, false, 5, by decide, by decide, rfl⟩ (by decide)
  exact ⟨y, hr, hk, by simp [hq], hw, by simp [hw, Worker.isSpare]⟩

end PipeRT
