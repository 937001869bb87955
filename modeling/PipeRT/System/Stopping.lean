import PipeRT.System.Queues

namespace PipeRT

-- How many steps a worker has left once the scheduler is being stopped.
def Worker.rank : Worker → Nat
  | exited             => 0
  | looping            => 1
  | finishing _        => 2
  | executing ..       => 3
  | locking | notified => 4
  | waiting            => 5

-- The worker that takes the step.
def Action.worker? : Action → Option Nat
  | enter i | serve i | wakeUp i | executed i _ | finish i => some i
  | _                                                      => none

namespace SchedulerImpl

variable {s s' : SchedulerImpl} {c : ChannelId} {ch : ChannelImpl} {wake : Option Nat} {i j : Nat}
variable {w w₀ : Worker}

def rankAt (s : SchedulerImpl) (i : Nat) : Nat :=
  s.workers[i]?.elim 0 Worker.rank

theorem rankAt_eq (hi : s.workers[i]? = some w) : s.rankAt i = w.rank := by
  rw [rankAt, hi]
  rfl

theorem rankAt_le (s : SchedulerImpl) (i : Nat) : s.rankAt i ≤ 5 := by
  rw [rankAt]
  cases s.workers[i]?
  case none   => exact Nat.zero_le 5
  case some w => cases w <;> simp [Worker.rank]

theorem rankAt_congr (hw : s'.workers = s.workers) (i : Nat) : s'.rankAt i = s.rankAt i := by
  rw [rankAt, hw, rankAt]

-- The worker goes on.
theorem rankAt_setWorker (hi : s.workers[i]? = some w₀) (hw : w.rank < w₀.rank) (j : Nat) :
    (s.setWorker i w).rankAt j + (if some i = some j then 1 else 0) ≤ s.rankAt j := by
  by_cases hj : i = j
  case pos =>
    subst hj
    rw [rankAt_eq hi, rankAt_eq (getElem?_setWorker hi), if_pos rfl]
    exact hw
  case neg =>
    have hsame : (s.setWorker i w).workers[j]? = s.workers[j]? := List.getElem?_set_ne hj
    rw [rankAt, hsame, if_neg (by simpa using hj), ← rankAt, add_zero]

-- A job may wake up a worker.
theorem Requeued.rankAt_le (hr : Requeued (s.setImpl c ch) s' wake) (j : Nat) :
    s'.rankAt j ≤ s.rankAt j := by
  obtain ⟨hw, _⟩ | ⟨wake, _, hw⟩ := hr.workers
  case inl => exact (rankAt_congr hw j).le
  case inr =>
    rw [setImpl_workers] at hw
    obtain ⟨_, he⟩ | ⟨i, hi, he⟩ := Worker.notifyOne_cases s.workers wake
    case inl => exact (rankAt_congr (hw.trans he) j).le
    case inr =>
      have hset := rankAt_setWorker (w := .notified) hi (by decide) j
      rw [rankAt_congr (s := s.setWorker i .notified) (hw.trans he)]
      omega

theorem Requeued.length_workers (hr : Requeued (s.setImpl c ch) s' wake) :
    s'.workers.length = s.workers.length := by
  obtain ⟨hw, _⟩ | ⟨wake, _, hw⟩ := hr.workers
  case inl => rw [hw, setImpl_workers]
  case inr => rw [hw, Worker.length_notifyOne, setImpl_workers]

theorem rankAt_notifyAll (s : SchedulerImpl) (j : Nat) : s.notifyAll.rankAt j ≤ s.rankAt j := by
  simp only [rankAt, notifyAll, List.getElem?_map]
  cases s.workers[j]?
  case none   => exact le_rfl
  case some w => cases w <;> simp [Worker.rank]

end SchedulerImpl

namespace System

variable {y y' : System} {a : Action} {i : Nat}

-- `Stop` has been called, and has not returned.
def IsStopping (y : System) : Prop :=
  y.control = .stopping ∨ y.control = .joining

theorem IsStopping.keepRunning (hs : y.IsStopping) (h : y.Inv) : y.sched.keepRunning = false := by
  rw [h.phase.keeps]
  cases hs
  case inl hc => rw [hc]; rfl
  case inr hc => rw [hc]; rfl

-- Whoever takes a step comes closer to the exit, and nobody is set back.
theorem IsStopping.step (hs : y.IsStopping) (h : y.Inv) (hg : y.Guard a) (ho : Outcome y a y')
    (hj : a ≠ .join) :
    y'.IsStopping ∧ y'.sched.workers.length = y.sched.workers.length ∧
      ∀ j, y'.sched.rankAt j + (if a.worker? = some j then 1 else 0) ≤ y.sched.rankAt j := by
  have hkeep := hs.keepRunning h
  have hcontrol : ∀ c, y.control = c → c ≠ .stopped ∧ c ≠ .running ∧ ∀ left, c ≠ .starting left := by
    rintro c rfl
    cases hs
    case inl hc => simp [hc]
    case inr hc => simp [hc]
  have hsame {s : SchedulerImpl} (hw : s.workers = y.sched.workers) (j : Nat) :
      s.rankAt j + 0 ≤ y.sched.rankAt j := (SchedulerImpl.rankAt_congr hw j).le
  cases ho
  case tick | acquire => exact ⟨hs, rfl, hsame rfl⟩
  case created hn hcr => exact absurd rfl (hcontrol _ hg.1).1
  case destroyed      => exact absurd rfl (hcontrol _ hg.1).1
  case start          => exact absurd rfl (hcontrol _ hg.1).1
  case invalid        => exact absurd rfl (hcontrol _ hg).1
  case spawned hc     => exact absurd rfl ((hcontrol _ hc).2.2 _)
  case started hc     => exact absurd rfl ((hcontrol _ hc).2.2 _)
  case stop           => exact absurd rfl (hcontrol _ hg).2.1
  case joined         => contradiction
  case notifiedAll    => exact ⟨.inr rfl, List.length_map .., y.sched.rankAt_notifyAll⟩
  case polled hr _    => exact ⟨hs, hr.length_workers, hr.rankAt_le⟩
  case advanced hadv  => exact ⟨hs, hadv.requeued.length_workers, hadv.requeued.rankAt_le⟩
  case entered hi =>
    refine ⟨hs, List.length_set .., SchedulerImpl.rankAt_setWorker hi ?_⟩
    rw [hkeep]
    decide
  case slept hk _ => exact absurd (hk.symm.trans hkeep) nofun
  case left hi _ _ =>
    cases hi
    case inl hi => exact ⟨hs, List.length_set .., SchedulerImpl.rankAt_setWorker hi (by decide)⟩
    case inr hi => exact ⟨hs, List.length_set .., SchedulerImpl.rankAt_setWorker hi (by decide)⟩
  case took i state c ch p rest q s' hi hnext hf hperm hserve htk hm =>
    refine ⟨hs, (List.length_set ..).trans (congrArg _ htk.workers), fun j => ?_⟩
    rw [← SchedulerImpl.rankAt_congr htk.workers j]
    rw [← htk.workers] at hi
    cases hi
    case inl hi =>
      exact SchedulerImpl.rankAt_setWorker (w := .executing state c p) hi (Nat.lt_succ_self 3) j
    case inr hi =>
      exact SchedulerImpl.rankAt_setWorker (w := .executing state c p) hi (Nat.lt_succ_self 3) j
  case woken hi => exact ⟨hs, List.length_set .., SchedulerImpl.rankAt_setWorker hi (by decide)⟩
  case executed hi _ => exact ⟨hs, List.length_set .., SchedulerImpl.rankAt_setWorker hi (by simp [Worker.rank])⟩
  case returned hi => exact ⟨hs, List.length_set .., SchedulerImpl.rankAt_setWorker hi (by decide)⟩
  case finished i state s' hi _ hf =>
    have hi' : s'.workers[i]? = some (.finishing state) := hf.workers ▸ hi
    refine ⟨hs, (List.length_set ..).trans (congrArg _ hf.workers), fun j => ?_⟩
    rw [← SchedulerImpl.rankAt_congr hf.workers j]
    exact SchedulerImpl.rankAt_setWorker (w := .looping) hi' (Nat.lt_succ_self 1) j

theorem Outcome.control_of_worker (ho : Outcome y a y') (ha : a.worker? = some i) :
    y'.control = y.control := by
  cases ho <;> first | rfl | contradiction

-- A worker that has not exited can always go on.
theorem Inv.exists_worker_step {w : Worker} (h : y.Inv) (hc : y.control = .joining)
    (hi : y.sched.workers[i]? = some w) (hw : w ≠ .exited) :
    ∃ a y', a.worker? = some i ∧ y.Clean a ∧ machine.Step y a y' := by
  suffices hex : ∃ a, a.worker? = some i ∧ y.Guard a ∧ y.Clean a by
    obtain ⟨a, ha, hg, hcl⟩ := hex
    obtain ⟨y', he, _⟩ := outcome h hg hcl
    exact ⟨a, y', ha, hcl, hg, he⟩
  cases w
  case looping         => exact ⟨.enter i, rfl, hi, trivial⟩
  case locking         => exact ⟨.serve i, rfl, .inl hi, trivial⟩
  case notified        => exact ⟨.serve i, rfl, .inr hi, trivial⟩
  case executing _ _ _ => exact ⟨.executed i y.now, rfl, ⟨by rw [hi]; rfl, le_rfl⟩, trivial⟩
  case finishing _     => exact ⟨.finish i, rfl, by change _ = _; rw [hi]; rfl, trivial⟩
  case waiting         => exact absurd (List.mem_of_getElem? hi) (h.phase.awake hc)
  case exited          => contradiction

-- The workers go on until all have exited.
theorem Inv.exists_join (h : y.Inv) (hc : y.control = .joining) :
    ∃ as y', machine.Run Clean y (as ++ [.join]) y' ∧ (∀ a ∈ as, a.worker?.isSome = true) ∧
      y'.control = .stopped ∧ y'.sched.workers = [] := by
  induction hn : ∑ j ∈ Finset.range y.sched.workers.length, y.sched.rankAt j using Nat.strong_induction_on
    generalizing y
  case h n ih =>
    by_cases hall : ∀ w ∈ y.sched.workers, w = .exited
    case pos =>
      have hstep : machine.Step y .join { y with sched := y.sched.join, control := .stopped } :=
        ⟨⟨hc, hall⟩, rfl⟩
      exact ⟨[], _, .step ⟨trivial, hstep⟩ .refl, by simp, rfl, rfl⟩
    case neg =>
      push Not at hall
      obtain ⟨w, hm, hw⟩ := hall
      obtain ⟨i, hi⟩ := List.getElem?_of_mem hm
      obtain ⟨hlt, _⟩ := List.getElem?_eq_some_iff.mp hi
      obtain ⟨a, y₁, ha, hcl, e⟩ := h.exists_worker_step hc hi hw
      have ho := h.outcome_of_step hcl e
      have hj : a ≠ .join := by
        rintro rfl
        contradiction
      obtain ⟨_, hlen, hrank⟩ := IsStopping.step (.inr hc) h e.guard ho hj
      -- The worker has come closer to the exit.
      have hless : ∑ j ∈ Finset.range y₁.sched.workers.length, y₁.sched.rankAt j < n := by
        rw [← hn, hlen]
        refine Finset.sum_lt_sum (fun j _ => ?_) ⟨i, Finset.mem_range.mpr hlt, ?_⟩
        · exact (Nat.le_add_right ..).trans (hrank j)
        · have := hrank i
          rw [ha, if_pos rfl] at this
          exact this
      obtain ⟨as, y', hrun, has, hstopped⟩ :=
        ih _ hless (safe.of_step h hcl e) ((ho.control_of_worker ha).trans hc) rfl
      refine ⟨a :: as, y', .step ⟨hcl, e⟩ hrun, fun b hb => ?_, hstopped⟩
      cases List.mem_cons.mp hb
      case inl he => rw [he, ha]; rfl
      case inr hb => exact has b hb

-- A worker that is about to take a packet.
theorem rankAt_eq_of_serve (hg : y.Guard (.serve i)) : y.sched.rankAt i = 4 := by
  cases hg
  case inl hi => exact SchedulerImpl.rankAt_eq hi
  case inr hi => exact SchedulerImpl.rankAt_eq hi

section Run

variable {as : List Action}

theorem IsStopping.preserved (hs : y.Inv ∧ y.IsStopping) (hj : y.Clean a ∧ a ≠ .join)
    (e : machine.Step y a y') : y'.Inv ∧ y'.IsStopping :=
  ⟨safe.of_step hs.1 hj.1 e, (hs.2.step hs.1 e.guard (hs.1.outcome_of_step hj.1 e) hj.2).1⟩

theorem IsStopping.rankAt_le (hs : y.Inv ∧ y.IsStopping) (hj : y.Clean a ∧ a ≠ .join)
    (e : machine.Step y a y') (j : Nat) :
    y'.sched.rankAt j + (if a.worker? = some j then 1 else 0) ≤ y.sched.rankAt j :=
  (hs.2.step hs.1 e.guard (hs.1.outcome_of_step hj.1 e) hj.2).2.2 j

theorem IsStopping.countP_worker (hs : y.Inv ∧ y.IsStopping)
    (r : machine.Run (fun y a => y.Clean a ∧ a ≠ .join) y as y') (i : Nat) :
    as.countP (fun a => a.worker? = some i) ≤ 5 := by
  refine le_trans ?_ (y.sched.rankAt_le i)
  refine r.countP_le (P := fun y => y.Inv ∧ y.IsStopping) (m := fun y => y.sched.rankAt i)
    (fun s a s' hp e => preserved hp e.1 e.2) (fun s a s' _ hp e => ?_) hs
  simpa using IsStopping.rankAt_le hp e.1 e.2 i

theorem IsStopping.countP_serve (hs : y.Inv ∧ y.IsStopping)
    (r : machine.Run (fun y a => y.Clean a ∧ a ≠ .join) y as y') (i : Nat) :
    as.countP (· = .serve i) ≤ 1 := by
  have hle : (if 4 ≤ y.sched.rankAt i then 1 else 0) ≤ 1 := by split <;> omega
  refine le_trans ?_ hle
  refine r.countP_le (P := fun y => y.Inv ∧ y.IsStopping) (m := fun y => if 4 ≤ y.sched.rankAt i then 1 else 0)
    (fun s a s' hp e => preserved hp e.1 e.2) (fun s a s' _ hp e => ?_) hs
  have hrank := IsStopping.rankAt_le hp e.1 e.2 i
  by_cases ha : a = .serve i
  case neg =>
    have hle : s'.sched.rankAt i ≤ s.sched.rankAt i := (Nat.le_add_right ..).trans hrank
    simp only [ha, decide_false, Bool.false_eq_true, if_false, add_zero]
    split <;> split <;> omega
  case pos =>
    subst ha
    have hfour := rankAt_eq_of_serve e.2.guard
    rw [hfour, Action.worker?, if_pos rfl] at hrank
    rw [hfour]
    simp only [decide_true, if_true, le_refl]
    split <;> omega

end Run
end System

-- `Stop` returns: once it is called, every worker has a few steps left, takes one more packet at
-- most, and can go on until it has exited.
theorem stop_returns {y : System} (h : machine.Reachable System.Clean y)
    (hs : y.control = .stopping ∨ y.control = .joining) :
    (∀ as y', machine.Run (fun y a => y.Clean a ∧ a ≠ .join) y as y' →
      (y'.control = .stopping ∨ y'.control = .joining) ∧
      ∀ i, as.countP (fun a => a.worker? = some i) ≤ 5 ∧ as.countP (· = .serve i) ≤ 1 ∧
        (y'.control = .joining → ∀ w, y'.sched.workers[i]? = some w → w ≠ .exited →
          ∃ a y'', a.worker? = some i ∧ machine.Step y' a y'')) ∧
    ∃ as y', machine.Run System.Clean y (as ++ [.join]) y' ∧
      (∀ a ∈ as, a = .notifyAll ∨ a.worker?.isSome = true) ∧
      y'.control = .stopped ∧ y'.sched.workers = [] := by
  have hi := safe.reachable h
  constructor
  case left =>
    intro as y' r
    obtain ⟨hi', hs'⟩ := r.preserves (P := fun y => y.Inv ∧ y.IsStopping)
      (fun s a s' hp e => System.IsStopping.preserved hp e.1 e.2) ⟨hi, hs⟩
    refine ⟨hs', fun i => ⟨System.IsStopping.countP_worker ⟨hi, hs⟩ r i,
      System.IsStopping.countP_serve ⟨hi, hs⟩ r i, fun hc w hw hne => ?_⟩⟩
    obtain ⟨a, y'', ha, _, e⟩ := hi'.exists_worker_step hc hw hne
    exact ⟨a, y'', ha, e⟩
  case right =>
    cases hs
    case inr hc =>
      obtain ⟨as, y', hrun, has, hstopped⟩ := hi.exists_join hc
      exact ⟨as, y', hrun, fun a ha => .inr (has a ha), hstopped⟩
    case inl hc =>
      have e : machine.Step y .notifyAll { y with sched := y.sched.notifyAll, control := .joining } :=
        ⟨hc, rfl⟩
      have hcl : y.Clean .notifyAll := trivial
      obtain ⟨as, y', hrun, has, hstopped⟩ := (safe.of_step hi hcl e).exists_join rfl
      refine ⟨.notifyAll :: as, y', .step ⟨hcl, e⟩ hrun, fun a ha => ?_, hstopped⟩
      cases List.mem_cons.mp ha
      case inl ha => exact .inl ha
      case inr ha => exact .inr (has a ha)

-- `Stop` is called while one worker is executing and jobs are left for another one.
theorem stop_returns_twoStates :
    ∃ y : System, y.sched.workers = [.executing 7 2 0, .locking] ∧ y.control = .stopping ∧
      ∃ as y', machine.Run System.Clean y (as ++ [.join]) y' ∧
        (∀ a ∈ as, a = .notifyAll ∨ a.worker?.isSome = true) ∧
        y'.control = .stopped ∧ y'.sched.workers = [] := by
  obtain ⟨y, hr, hw, hc⟩ := Machine.exists_reachable_of_replay (M := machine) (s := .new 2 false 5)
    System.Clean (twoStates ++ [.stop])
    (P := fun y => y.sched.workers = [.executing 7 2 0, .locking] ∧ y.control = .stopping)
    ⟨2, false, 5, by decide, by decide, rfl⟩ (by decide)
  exact ⟨y, hw, hc, (stop_returns hr (.inl hc)).2⟩

end PipeRT
