import PipeRT.System.Outcome

open Heap

namespace PipeRT

theorem SchedulerImpl.WF.new (workersNumber : Nat) (profiler : Bool) :
    (SchedulerImpl.new workersNumber profiler).WF where
  known _ _ _ h   := nomatch h
  heaps _ _ h     := nomatch h
  mem _           := iff_of_false List.not_mem_nil fun ⟨_, h, _⟩ => nomatch h
  nodup           := List.nodup_nil
  order           := IsHeap.nil
  sorted _ _ h    := nomatch h
  registered _ _ h := nomatch h
  live _          := iff_of_false List.not_mem_nil fun ⟨_, h⟩ => nomatch h
  distinct        := List.nodup_nil
  profiled _ _ h  := nomatch h

namespace System

variable {y y' : System} {a : Action}

theorem Inv.new {workersNumber : Nat} {profiler : Bool} {now : Time} (hw : 0 < workersNumber)
    (ht : now < kMaxTime) : (System.new workersNumber profiler now).Inv where
  wf        := .new ..
  staffed   := ⟨fun _ => rfl, nofun⟩
  phase     := ⟨rfl, rfl, hw, nofun, fun _ => rfl, nofun⟩
  accounted := ⟨nofun, nofun, nofun, nofun⟩
  clock     := ht

theorem Outcome.staffed (h : y.Inv) (hg : y.Guard a) (ho : Outcome y a y') : y'.sched.Staffed := by
  have hs := h.staffed
  cases ho
  case tick | started | acquire => exact hs
  case start | stop | invalid => exact hs.congr rfl (fun _ => rfl) fun _ _ => id
  case spawned => exact hs.spawn
  case notifiedAll => exact hs.notifyAll
  case joined => exact hs.join hg.2
  case created hn hcr =>
    have himpls := congrArg SchedulerImpl.impls hcr.frame
    refine hs.congr (by rw [hcr.frame]) hcr.enabled fun a x ha => himpls ▸ ?_
    exact SchedulerImpl.exists_impl_update (fun _ hch => nomatch hn.symm.trans hch) ha
  case destroyed hch hv hd =>
    -- There are no workers while the scheduler is stopped.
    have hw := congrArg SchedulerImpl.workers hd.frame
    refine ⟨fun x => ?_, fun x c p hm => ?_⟩
    · have hsub := congrArg (fun s : SchedulerImpl => s.subscript x) hd.frame
      exact hw ▸ hsub ▸ hs.exclusive x
    · exact absurd ((hw.trans <| h.phase.idle hg.1) ▸ hm) List.not_mem_nil
  case polled hch hs' hr hm =>
    exact hs.requeued (fun b hb => Option.some.inj (hch.symm.trans hb) ▸ hm.state) hr
  case advanced hx hadv =>
    exact hs.requeued (fun b hb => Option.some.inj (hadv.impl.symm.trans hb) ▸ hadv.moved.state)
      hadv.requeued
  case entered hi => exact hs.enter hi <| by cases y.sched.keepRunning <;> simp
  case slept hi _ _ | left hi _ _ =>
    have ⟨_, hi, ho⟩ := SchedulerImpl.exists_served hi
    exact hs.setWorker hi (fun x => (ho x).symm) nofun
  case took hi hnext hf hperm hserve htk hm =>
    have ⟨_, hi, ho⟩ := SchedulerImpl.exists_served hi
    exact hs.taken htk hnext.impl hnext.state_eq hm.state hnext.enabled hi ho
  case woken hi => exact hs.setWorker hi (fun _ => rfl) nofun
  case executed i t₁ state c p ch hi hch =>
    have hs' : (y.sched.setImpl c <| ch.log .executeTime (y.now - t₁)).Staffed :=
      hs.congr rfl (fun _ => rfl) fun a x => SchedulerImpl.exists_impl_update fun b hb =>
        Option.some.inj (hch.symm.trans hb) ▸ rfl
    exact hs'.setWorker hi (fun _ => rfl) nofun
  case returned hi => exact hs.returned hi
  case finished hi hn hf => exact hs.finished hf hn hi

theorem Outcome.phase (h : y.Inv) (hg : y.Guard a) (ho : Outcome y a y') :
    Phase y'.control y'.sched := by
  have hp := h.phase
  cases ho
  case tick | acquire => exact hp
  case invalid => exact hp.same rfl
  case created hcr => exact hp.same (by rw [hcr.frame])
  case destroyed hd => exact hp.same (by rw [hd.frame])
  case start => exact (hg.1 ▸ hp).start
  case spawned hcon => exact (hcon ▸ hp).spawn
  case started hcon => exact (hcon ▸ hp).started
  case stop =>
    have hg : y.control = .running := hg
    exact (hg ▸ hp).stop
  case notifiedAll =>
    have hg : y.control = .stopping := hg
    exact (hg ▸ hp).notifyAll
  case joined => exact (hg.1 ▸ hp).join
  case polled hr _ => exact hp.requeued hr
  case advanced hadv => exact hp.requeued hadv.requeued
  case entered => exact hp.setWorker fun he => by split at he <;> contradiction
  case slept hk _ => exact hp.setWorker fun _ => hk
  case left | woken | returned => exact hp.setWorker nofun
  case took s' _ _ _ _ _ htk _ =>
    have hp' : Phase y.control s' := hp.same (by rw [htk.frame])
    exact hp'.setWorker nofun
  case executed i t₁ state c p ch hi hch =>
    have hp' : Phase y.control (y.sched.setImpl c <| ch.log .executeTime (y.now - t₁)) := hp.same rfl
    exact hp'.setWorker nofun
  case finished s' _ _ hf =>
    have hp' : Phase y.control s' := hp.same (by rw [hf.frame])
    exact hp'.setWorker nofun

theorem Outcome.accounted (h : y.Inv) (hg : y.Guard a) (ho : Outcome y a y') :
    Accounted y'.sched.impls y'.clients y'.now := by
  have hacc := h.accounted
  cases ho
  case tick => exact hacc.tick hg.1
  case start | spawned | started | stop | notifiedAll | joined | invalid | entered | slept | left
    | woken | returned => exact hacc
  case created hn hcr =>
    rw [congrArg SchedulerImpl.impls hcr.frame]
    exact hacc.create hn (List.reverse_perm _) rfl
  case destroyed hch hv hd =>
    rw [congrArg SchedulerImpl.impls hd.frame]
    exact hacc.destroy hg.2.2
  case acquire hch => exact hacc.acquire hch _
  case polled hch _ hr hm =>
    rw [hr.impls]
    exact hacc.move y.clients hch (.refl _) hm
  case advanced x x' ch ch' wake s' hx hadv =>
    rw [hadv.requeued.impls]
    exact hacc.move (x := some x) _ hadv.impl (List.perm_cons_erase hx) hadv.moved
  case took s' _ hnext _ _ _ htk hm =>
    change Accounted s'.impls _ y.now
    rw [htk.impls]
    exact hacc.move y.clients hnext.impl (.refl _) hm
  case executed i t₁ state c p ch hi hch =>
    exact hacc.move y.clients hch (.refl _) (.log _ _ <| hacc.times c ch hch)
  case finished s' _ _ hf =>
    change Accounted s'.impls _ y.now
    rw [hf.impls]
    exact hacc

theorem Outcome.clock (h : y.Inv) (hg : y.Guard a) (ho : Outcome y a y') : y'.now < kMaxTime := by
  cases ho
  case tick => exact hg.2
  all_goals exact h.clock

theorem Outcome.inv (h : y.Inv) (hg : y.Guard a) (hwf : y'.sched.WF) (ho : Outcome y a y') :
    y'.Inv where
  wf        := hwf
  staffed   := ho.staffed h hg
  phase     := ho.phase h hg
  accounted := ho.accounted h hg
  clock     := ho.clock h hg

end System

-- While the scheduler has no jobs of the channels that are destroyed, nothing fails.
theorem safe : machine.Safe System.Clean System.Inv where
  init _ := fun ⟨_, _, _, hw, ht, h⟩ => h ▸ .new hw ht
  step _ _ h hg hc := by
    have ⟨y', he, hwf, ho⟩ := System.outcome h hg hc
    exact ⟨y', he, ho.inv h hg hwf⟩

theorem System.Inv.outcome_of_step {y y' : System} {a : Action} (h : y.Inv) (hc : y.Clean a)
    (e : machine.Step y a y') : System.Outcome y a y' := by
  have ⟨y'', he, _, ho⟩ := System.outcome h e.guard hc
  obtain rfl := Except.ok.inj <| e.exec.symm.trans he
  exact ho

end PipeRT
