import PipeRT.System.Workers

open Heap

namespace PipeRT

-- The packets of the channel that wait for a worker.
def SchedulerImpl.jobs (s : SchedulerImpl) (channel : ChannelId) : List Slot :=
  match s.impls channel with
  | none    => []
  | some ch => if ch.isScheduled then ch.queuedPackets.heap else []

-- The threads that run and the phase do not matter to the queues.
theorem SchedulerImpl.WF.congr {s s' : SchedulerImpl} (h : s.WF) (hi : s'.impls = s.impls)
    (hch : s'.channels = s.channels) (hq : s'.state2channelQueues = s.state2channelQueues)
    (hs : s'.stateQueue = s.stateQueue) (hp : s'.profiler = s.profiler) : s'.WF := by
  refine h.of_tracks (h.toTracks.of_view ?_ hq hs) hi hch hp fun x chq hx => ⟨chq, hq ▸ hx⟩
  funext c
  rw [view, view, hi]

theorem SchedulerImpl.WF.setWorker {s : SchedulerImpl} (h : s.WF) (i : Nat) (w : Worker) :
    (s.setWorker i w).WF :=
  h.congr rfl rfl rfl rfl rfl

theorem SchedulerImpl.jobs_eq {s : SchedulerImpl} {c : ChannelId} {ch : ChannelImpl}
    (hc : s.impls c = some ch) :
    s.jobs c = if ch.isScheduled then ch.queuedPackets.heap else [] := by
  rw [jobs, hc]

namespace System

-- No channel is destroyed that the scheduler still has jobs of.
def Clean (y : System) : Action → Prop
  | .destroyChannel c => y.sched.jobs c = []
  | _                 => True

instance {y : System} : DecidablePred y.Clean
  | .destroyChannel _ => inferInstanceAs (Decidable (_ = _))
  | .tick _ | .createChannel .. | .start | .spawn | .stop | .notifyAll | .join | .setStateInvalid
  | .acquire .. | .poll _ | .advance .. | .enter _ | .serve _ | .wakeUp _ | .executed ..
  | .finish _ => .isTrue trivial

-- What holds whenever no thread is in a critical section.
structure Inv (y : System) : Prop where
  wf        : y.sched.WF
  staffed   : y.sched.Staffed
  phase     : Phase y.control y.sched
  accounted : Accounted y.sched.impls y.clients y.now
  clock     : y.now < kMaxTime

-- What a step does, by the branch that it takes.
inductive Outcome (y : System) : Action → System → Prop
  | tick (t : Time) :
    Outcome y (.tick t) { y with now := t }
  | created {c : ChannelId} {name : String} {capacity : Nat} {state : Ptr} {callback : Bool}
    {s' : SchedulerImpl} :
    y.sched.impls c = none →
    y.sched.Created s' c ((ChannelImpl.new name capacity state callback).setProfileData
      (if y.sched.profiler then some [] else none)) →
    Outcome y (.createChannel c name capacity state callback) { y with sched := s' }
  | destroyed {c : ChannelId} {ch : ChannelImpl} {s' : SchedulerImpl} :
    y.sched.impls c = some ch → ch.view = none → y.sched.Destroyed s' c →
    Outcome y (.destroyChannel c) { y with sched := s' }
  | start :
    Outcome y .start { y with
      sched := { y.sched with running := true, keepRunning := true },
      control := .starting y.sched.workersNumber }
  | spawned {left : Nat} :
    y.control = .starting (left + 1) →
    Outcome y .spawn { y with sched := y.sched.spawn, control := .starting left }
  | started :
    y.control = .starting 0 →
    Outcome y .spawn { y with control := .running }
  | stop :
    Outcome y .stop { y with
      sched := { y.sched with keepRunning := false }, control := .stopping }
  | notifiedAll :
    Outcome y .notifyAll { y with sched := y.sched.notifyAll, control := .joining }
  | joined :
    Outcome y .join { y with sched := y.sched.join, control := .stopped }
  | invalid :
    Outcome y .setStateInvalid { y with sched := { y.sched with validState := false } }
  | acquire {c : ChannelId} {ch : ChannelImpl} (timestamp : Time) :
    y.sched.impls c = some ch →
    Outcome y (.acquire c timestamp)
      { y with clients := .acquiring c timestamp (.round 0) :: y.clients }
  | polled {c : ChannelId} {ch ch' : ChannelImpl} {packet : Option Slot} {s' : SchedulerImpl} :
    y.sched.impls c = some ch → y.sched.getNext c false y.now = .ok (packet, s') →
    SchedulerImpl.Requeued (y.sched.setImpl c ch') s' none →
    Moved c ch ch' none (packet.map (.processing c)) y.now →
    Outcome y (.poll c)
      { y with sched := s', clients := (packet.map (Client.processing c)).toList ++ y.clients }
  | advanced {x : Client} {x' : Option Client} {ch ch' : ChannelImpl} {wake : Nat}
    {s' : SchedulerImpl} :
    x ∈ y.clients → y.sched.Advances y.now wake x x' ch ch' s' →
    Outcome y (.advance x wake)
      { y with sched := s', clients := x'.toList ++ y.clients.erase x }
  | entered {i : Nat} :
    y.sched.workers[i]? = some .looping →
    Outcome y (.enter i)
      { y with sched := y.sched.setWorker i (if y.sched.keepRunning then .locking else .exited) }
  | slept {i : Nat} :
    (y.sched.workers[i]? = some .locking ∨ y.sched.workers[i]? = some .notified) →
    y.sched.keepRunning = true → y.sched.stateQueue.heap = [] →
    Outcome y (.serve i) { y with sched := y.sched.setWorker i .waiting }
  | left {i : Nat} :
    (y.sched.workers[i]? = some .locking ∨ y.sched.workers[i]? = some .notified) →
    y.sched.keepRunning = false → y.sched.stateQueue.heap = [] →
    Outcome y (.serve i) { y with sched := y.sched.setWorker i .looping }
  | took {i : Nat} {state : Ptr} {c : ChannelId} {ch : ChannelImpl} {p : Slot} {rest : List Slot}
    {q : SteadyHeap Slot} {s' : SchedulerImpl} :
    (y.sched.workers[i]? = some .locking ∨ y.sched.workers[i]? = some .notified) →
    y.sched.Next state c ch p → ch.queuedPackets.heap = p :: rest → q.heap.Perm rest →
    y.sched.serve i y.now = .ok (s'.setWorker i (.executing state c p)) →
    y.sched.Taken s' state c (ch.popped q p false y.now) →
    Moved c ch (ch.popped q p false y.now) none (some (.processing c p)) y.now →
    Outcome y (.serve i) { y with
      sched := s'.setWorker i (.executing state c p), clients := .processing c p :: y.clients }
  | woken {i : Nat} :
    y.sched.workers[i]? = some .waiting →
    Outcome y (.wakeUp i) { y with sched := y.sched.setWorker i .notified }
  | executed {i : Nat} {t₁ : Time} {state : Ptr} {c : ChannelId} {p : Slot} {ch : ChannelImpl} :
    y.sched.workers[i]? = some (.executing state c p) → y.sched.impls c = some ch →
    Outcome y (.executed i t₁) { y with
      sched := (y.sched.setImpl c <| ch.log .executeTime (y.now - t₁)).setWorker i (.finishing state) }
  | returned {i : Nat} :
    y.sched.workers[i]? = some (.finishing nullptr) →
    Outcome y (.finish i) { y with sched := y.sched.setWorker i .looping }
  | finished {i : Nat} {state : Ptr} {s' : SchedulerImpl} :
    y.sched.workers[i]? = some (.finishing state) → state ≠ nullptr →
    y.sched.Finished s' state →
    Outcome y (.finish i) { y with sched := s'.setWorker i .looping }

variable {y y' : System} {a : Action}

theorem retrieved_of_executing {s : SchedulerImpl} {i : Nat} {state : Ptr} {c : ChannelId} {p : Slot}
    (h : s.workers[i]? = some (.executing state c p)) : retrieved s i = some (.processing c p) := by
  simp [retrieved, h]

theorem retrieved_of_ne {s : SchedulerImpl} {i : Nat} {w : Worker} (h : s.workers[i]? = some w)
    (hw : w.isExecuting = false) : retrieved s i = none := by
  cases w
  case executing => contradiction
  all_goals simp [retrieved, h]

-- A worker that finds a state in the queue takes the packet that is next.
theorem take_outcome {i : Nat} (h : y.Inv)
    (hi : y.sched.workers[i]? = some .locking ∨ y.sched.workers[i]? = some .notified)
    (hq : y.sched.stateQueue.heap ≠ []) :
    ∃ y', y.exec (.serve i) = .ok y' ∧ y'.sched.WF ∧ Outcome y (.serve i) y' := by
  have ⟨state, c, ch, p, rest, q, s', hnext, hf, hs', hwf, hperm, ht⟩ :=
    SchedulerImpl.takeNext_spec (t := y.now) h.wf hq (fun c ch hc => h.accounted.size_queue_le hc)
      h.accounted.times
  have hm : Moved c ch (ch.popped q p false y.now) none (some (.processing c p)) y.now :=
    .retrieved hf hperm <| h.accounted.times c ch hnext.impl
  have ⟨_, hw, _⟩ := SchedulerImpl.exists_served <| ht.workers ▸ hi
  have hserve : y.sched.serve i y.now = .ok (s'.setWorker i (.executing state c p)) := by
    simp [SchedulerImpl.serve, hq, hs']
  refine ⟨_, ?_, hwf.setWorker .., .took hi hnext hf hperm hserve ht hm⟩
  rw [exec, hserve, ok_bind, retrieved_of_executing <| SchedulerImpl.getElem?_setWorker hw]
  rfl

theorem serve_outcome {i : Nat} (h : y.Inv)
    (hi : y.sched.workers[i]? = some .locking ∨ y.sched.workers[i]? = some .notified) :
    ∃ y', y.exec (.serve i) = .ok y' ∧ y'.sched.WF ∧ Outcome y (.serve i) y' := by
  have ⟨_, hw, _⟩ := SchedulerImpl.exists_served hi
  by_cases hq : y.sched.stateQueue.heap = []
  case neg => exact take_outcome h hi hq
  case pos =>
    cases hk : y.sched.keepRunning
    case true =>
      refine ⟨_, ?_, h.wf.setWorker .., .slept hi hk hq⟩
      have hret := retrieved_of_ne (SchedulerImpl.getElem?_setWorker (w := .waiting) hw) rfl
      simp [exec, SchedulerImpl.serve, hk, hq, hret]
    case false =>
      refine ⟨_, ?_, h.wf.setWorker .., .left hi hk hq⟩
      have hret := retrieved_of_ne (SchedulerImpl.getElem?_setWorker (w := .looping) hw) rfl
      simp [exec, SchedulerImpl.serve, hk, hq, hret]

theorem finish_outcome {i : Nat} (h : y.Inv) (hg : y.Guard (.finish i)) :
    ∃ y', y.exec (.finish i) = .ok y' ∧ y'.sched.WF ∧ Outcome y (.finish i) y' := by
  obtain ⟨w, hi, hw⟩ := (Option.any_eq_true ..).mp hg
  cases w
  case finishing state =>
    by_cases hn : state = nullptr
    case pos =>
      subst hn
      exact ⟨_, by simp [exec, hi], h.wf.setWorker .., .returned hi⟩
    case neg =>
      have hen := h.staffed.disabled hn hi
      cases hq : y.sched.state2channelQueues state
      case none => simp [SchedulerImpl.subscript, hq, EnabledChannelHeap.new] at hen
      case some chq =>
        obtain ⟨enabled, heap⟩ := chq
        rw [SchedulerImpl.subscript_eq hq] at hen
        cases enabled
        case true  => contradiction
        case false =>
          obtain ⟨s', hs', hwf, hf⟩ := SchedulerImpl.finish_spec h.wf hq
          exact ⟨_, by simp [exec, hi, hn, hs'], hwf.setWorker .., .finished hi hn hf⟩
  all_goals contradiction

-- Every step comes to an end, in one of the ways above.
theorem outcome (h : y.Inv) (hg : y.Guard a) (hc : y.Clean a) :
    ∃ y', y.exec a = .ok y' ∧ y'.sched.WF ∧ Outcome y a y' := by
  have hstopped (hs : y.control = .stopped) : y.sched.running = false := by
    rw [h.phase.running, hs]
    rfl
  cases a
  case tick t => exact ⟨_, rfl, h.wf, .tick t⟩
  case createChannel c name capacity state callback =>
    have hn := Option.isNone_iff_eq_none.mp hg.2
    obtain ⟨s', hs', hwf, hcr⟩ := SchedulerImpl.createChannel_spec name capacity state callback
      h.wf (hstopped hg.1) hn rfl
    exact ⟨_, by simp [exec, hs'], hwf, .created hn hcr⟩
  case destroyChannel c =>
    obtain ⟨ch, hch⟩ := Option.isSome_iff_exists.mp hg.2.1
    have hv : ch.view = none := by
      have hj : y.sched.jobs c = [] := hc
      rw [SchedulerImpl.jobs_eq hch] at hj
      split at hj
      case isTrue  => exact SchedulerImpl.channel_view_of_empty <| by simp [SteadyHeap.front?, hj]
      case isFalse hs => exact SchedulerImpl.channel_view_of_polled <| Bool.eq_false_iff.mpr hs
    obtain ⟨s', hs', hwf, hd⟩ := SchedulerImpl.destroyChannel_spec h.wf (hstopped hg.1) hch hv
    exact ⟨_, by simp [exec, hs'], hwf, .destroyed hch hv hd⟩
  case start =>
    refine ⟨_, ?_, ?_, .start⟩
    · simp [exec, SchedulerImpl.start, hstopped hg.1, hg.2]
    · exact h.wf.congr rfl rfl rfl rfl rfl
  case spawn =>
    cases hcon : y.control
    case starting left =>
      cases left
      case zero =>
        refine ⟨{ y with control := .running }, ?_, h.wf, .started hcon⟩
        simp [exec, hcon]
      case succ left =>
        refine ⟨{ y with sched := y.sched.spawn, control := .starting left }, ?_,
          h.wf.congr rfl rfl rfl rfl rfl, .spawned hcon⟩
        simp [exec, hcon]
    all_goals simp [Guard, hcon, Control.isStarting] at hg
  case stop =>
    have hr : y.sched.running = true := by
      rw [h.phase.running, hg]
      rfl
    refine ⟨_, ?_, ?_, .stop⟩
    · simp [exec, SchedulerImpl.stop, hr]
    · exact h.wf.congr rfl rfl rfl rfl rfl
  case notifyAll => exact ⟨_, rfl, h.wf.congr rfl rfl rfl rfl rfl, .notifiedAll⟩
  case join => exact ⟨_, rfl, h.wf.congr rfl rfl rfl rfl rfl, .joined⟩
  case setStateInvalid =>
    refine ⟨_, ?_, ?_, .invalid⟩
    · simp [exec, SchedulerImpl.setStateInvalid, hstopped hg]
    · exact h.wf.congr rfl rfl rfl rfl rfl
  case acquire c timestamp =>
    obtain ⟨ch, hch⟩ := Option.isSome_iff_exists.mp hg
    exact ⟨_, rfl, h.wf, .acquire timestamp hch⟩
  case poll c =>
    obtain ⟨ch, hch⟩ := Option.isSome_iff_exists.mp hg
    obtain ⟨p, ch', s', hs', hwf, hr, hm⟩ := SchedulerImpl.poll_spec h.wf h.accounted hch
    exact ⟨_, by simp [exec, hs'], hwf, .polled hch hs' hr hm⟩
  case advance x wake =>
    obtain ⟨x', ch, ch', s', hadv⟩ := SchedulerImpl.advance_spec h.wf h.accounted hg.1
      (fun c p hx => by simpa [Punctual, hx] using hg.2) h.clock wake
    exact ⟨_, by simp [exec, hadv.exec], hadv.wf, .advanced hg.1 hadv⟩
  case enter i => exact ⟨_, rfl, h.wf.setWorker .., .entered hg⟩
  case serve i => exact serve_outcome h hg
  case wakeUp i => exact ⟨_, rfl, h.wf.setWorker .., .woken hg⟩
  case executed i t₁ =>
    obtain ⟨w, hi, hw⟩ := (Option.any_eq_true ..).mp hg.1
    cases w
    case executing state c p =>
      obtain ⟨ch, hch, _⟩ := h.staffed.executing state c p <| List.mem_of_getElem? hi
      refine ⟨_, ?_, (h.wf.quiet hch <| .log ..).setWorker .., .executed hi hch⟩
      simp [exec, hi, SchedulerImpl.deref_eq hch]
    all_goals contradiction
  case finish i => exact finish_outcome h hg

end System
end PipeRT
