import PipeRT.System.Refinement

namespace PipeRT

-- What a run means to the flat queue.
def System.events (y : System) (as : List Action) : List SchedulerImpl.Event :=
  machine.trace (fun y a => [y.event a]) y as

theorem System.edf_run {y₀ y : System} {as : List Action} (hi : machine.Init y₀)
    (r : machine.Run System.Clean y₀ as y) :
    Execution (Edf.Queue.Step nullptr) .empty (y₀.events as) y.sched.edf := by
  have hempty : y₀.sched.edf = .empty := by
    obtain ⟨_, _, _, _, _, rfl⟩ := hi
    exact Edf.Queue.ext (Set.eq_empty_iff_forall_notMem.mpr fun _ ⟨_, hc, _⟩ => nomatch hc)
      (Set.eq_empty_iff_forall_notMem.mpr fun _ he => nomatch he)
  refine And.right <| r.trace_invariant
    (I := fun log y => y.Inv ∧ Execution (Edf.Queue.Step nullptr) .empty log y.sched.edf)
    (fun log y a y' h hc e => ?_) ⟨safe.init y₀ hi, hempty ▸ .refl⟩
  have hi' := safe.of_step h.1 hc e
  exact ⟨hi', h.2.trans (.step (System.edf_step h.1 hi' <| h.1.outcome_of_step hc e) .refl)⟩

-- A packet that is pushed into a scheduled channel is taken by one worker, or dropped or polled, or it
-- is still there. Workers take a packet before an earlier one only if that one is pushed later, or if
-- its monitor object is in use. Packets of one monitor object are executed one after the other.
theorem jobs_in_order {y₀ y : System} {as : List Action} (hi : machine.Init y₀)
    (r : machine.Run System.Clean y₀ as y) :
    (∀ j, Edf.Queue.Conserved (y₀.events as) y.sched.edf j) ∧
    ∀ (es₁ es₂ es₃ : List SchedulerImpl.Event) (j₁ j₂ : Job),
      y₀.events as = es₁ ++ .take j₁ :: (es₂ ++ .take j₂ :: es₃) →
      (j₂.deadline < j₁.deadline → .arrive j₂ ∈ es₂ ∨ j₂.group ≠ j₁.group ∧ j₂.group ≠ nullptr ∧
        ∃ (es es' : List SchedulerImpl.Event) (j : Job),
          es₁ = es ++ .take j :: es' ∧ j.group = j₂.group ∧ .finish j₂.group ∉ es') ∧
      (j₁.group = j₂.group → j₁.group ≠ nullptr → .finish j₁.group ∈ es₂) := by
  have p := System.edf_run hi r
  refine ⟨Edf.Queue.conserved p rfl, fun es₁ es₂ es₃ j₁ j₂ he => ?_⟩
  rw [he] at p
  exact ⟨Edf.Queue.inversion rfl p, Edf.Queue.finish_between p⟩

-- One of three packets is taken, and two are left.
theorem jobs_in_order_twoStates :
    ∃ y : System, y.sched.workers = [.executing 7 2 0, .locking] ∧
      (∀ j, Edf.Queue.Conserved ((System.new 2 false 5).events twoStates) y.sched.edf j) ∧
      ((System.new 2 false 5).events twoStates).count (.take ⟨(2, 0), 7, 0⟩) = 1 := by
  have hreplay : (machine.replay System.Clean (.new 2 false 5) twoStates).any
      (fun y => decide (y.sched.workers = [.executing 7 2 0, .locking])) = true := by decide
  obtain ⟨y, hy, hw⟩ := (Option.any_eq_true ..).mp hreplay
  exact ⟨y, of_decide_eq_true hw, (jobs_in_order ⟨2, false, 5, by decide, by decide, rfl⟩
    (Machine.run_of_replay hy)).1, by decide +kernel⟩

end PipeRT
