import PipeRT.Profile.Owned

namespace PipeRT

open ProfilerFault

namespace Profilers

variable {ι : Type} {aton : List Char → Option InAddr} {y y' : Profilers ι} {a : ProfilersAction ι}
variable {i o : ι} {k : Nat} {fault : ProfilerFault} [DecidableEq ι]

-- How the calls of a profiler agree with what the scheduler remembers.
def Impl.Serves (scheduler' : Scheduler) (impl impl' : Impl) : Prop :=
  impl'.bound = impl.bound ∧ impl'.profileData = scheduler'.channels ∧
  (impl'.collecting = true ↔ scheduler'.running = true ∧ impl'.aggregationTimeMsec ≠ 0)

section Schedulers

variable {scheduler scheduler' : Scheduler} {f : Impl → Except ProfilerFault Impl}

theorem Owned.serves (h : y.Owned) (hs : y.schedulers i = some scheduler)
    (hp : scheduler'.profiler = scheduler.profiler)
    (hf : ∀ impl impl', impl.profileData = scheduler.channels →
      (impl.collecting = true ↔ scheduler.running = true ∧ impl.aggregationTimeMsec ≠ 0) →
      f impl = .ok impl' → Impl.Serves scheduler' impl impl')
    (he : y.onProfiler scheduler f = .ok y') : (y'.setScheduler i scheduler').Owned := by
  rw [onProfiler] at he
  cases hk : scheduler.profiler
  case none =>
    rw [hk] at he
    obtain rfl := Except.ok.inj he
    exact h.setScheduler hs hk (hp.trans hk)
  case some k =>
    rw [hk] at he
    obtain ⟨impl, hderef, he⟩ := bind_eq_ok.mp he
    obtain ⟨impl', himpl', he⟩ := bind_eq_ok.mp he
    obtain rfl := Except.ok.inj he
    rw [deref] at hderef
    cases himpl : y.impls k
    case none => simp [himpl] at hderef
    case some =>
      rw [himpl] at hderef
      obtain rfl := Except.ok.inj hderef
      obtain ⟨hdata, hcollecting⟩ := h.used i scheduler k _ hs hk himpl
      obtain ⟨hbound, hused⟩ := hf _ impl' hdata hcollecting himpl'
      exact h.setImpl hs hk (hp.trans hk) himpl hbound hused

omit [DecidableEq ι] in
theorem Owned.onProfiler_error (h : y.Owned) (hs : y.schedulers i = some scheduler)
    (hf : ∀ impl fault, f impl = .error fault → fault = .assertion)
    (he : y.onProfiler scheduler f = .error fault) : fault = .assertion := by
  rw [onProfiler] at he
  cases hk : scheduler.profiler
  case none => simp [hk] at he
  case some k =>
    rw [hk] at he
    have himpl := h.isSome_implOf <| (h.member i scheduler hs).2.symm.trans hk
    obtain ⟨impl, himpl⟩ := Option.isSome_iff_exists.mp himpl
    have hderef : y.deref k = .ok impl := by rw [deref, himpl]
    simp only [hderef, ok_bind] at he
    obtain he | ⟨_, _, he⟩ := bind_eq_error.mp he
    · exact hf impl fault he
    · contradiction

theorem Impl.start_serves {impl impl' : Impl} (hd : impl.profileData = scheduler.channels)
    (he : impl.start = .ok impl') : Impl.Serves { scheduler with running := true } impl impl' := by
  obtain ⟨_, _, he⟩ := bind_eq_ok.mp he
  obtain rfl := Except.ok.inj he
  exact ⟨rfl, hd, by simp⟩

theorem Impl.stop_serves {impl impl' : Impl} (hd : impl.profileData = scheduler.channels)
    (he : impl.stop = .ok impl') : Impl.Serves { scheduler with running := false } impl impl' := by
  obtain ⟨_, _, he⟩ := bind_eq_ok.mp he
  obtain rfl := Except.ok.inj he
  exact ⟨rfl, hd, by simp⟩

theorem Impl.addProfileData_serves {impl impl' : Impl} (hd : impl.profileData = scheduler.channels)
    (hr : impl.collecting = true ↔ scheduler.running = true ∧ impl.aggregationTimeMsec ≠ 0)
    (he : impl.addProfileData = .ok impl') :
    Impl.Serves { scheduler with channels := scheduler.channels + 1 } impl impl' := by
  obtain ⟨_, _, he⟩ := bind_eq_ok.mp he
  obtain rfl := Except.ok.inj he
  exact ⟨rfl, congrArg (· + 1) hd, hr⟩

theorem Impl.removeProfileData_serves {impl impl' : Impl} (hd : impl.profileData = scheduler.channels)
    (hr : impl.collecting = true ↔ scheduler.running = true ∧ impl.aggregationTimeMsec ≠ 0)
    (he : impl.removeProfileData = .ok impl') :
    Impl.Serves { scheduler with channels := scheduler.channels - 1 } impl impl' := by
  obtain ⟨_, _, he⟩ := bind_eq_ok.mp he
  obtain ⟨_, _, he⟩ := bind_eq_ok.mp he
  obtain rfl := Except.ok.inj he
  exact ⟨rfl, congrArg (· - 1) hd, hr⟩

-- A scheduler is made around the `Profiler` that it has just been given.
theorem Owned.createScheduler (h : y.Owned) (hs : y.schedulers i = none) (hi : (y.handles i).isSome = true) :
    (y.setScheduler i ⟨y.implOf i, false, 0⟩).Owned := by
  refine { h with
    member := fun j other hj => ?_
    used   := fun j other k impl hj hp hk => ?_
    idle   := fun k impl hk hp => h.idle k impl hk fun j other hj => ?_ }
  case refine_1 =>
    obtain ⟨rfl, rfl⟩ | ⟨_, hold⟩ := update_some_eq_some.mp hj
    case inl => exact ⟨hi, rfl⟩
    case inr => exact h.member j other hold
  case refine_2 =>
    obtain ⟨rfl, rfl⟩ | ⟨_, hold⟩ := update_some_eq_some.mp hj
    case inr => exact h.used j other k impl hold hp hk
    case inl =>
      obtain ⟨hdata, hcollecting⟩ := h.idle_implOf hs hp hk
      exact ⟨hdata, by simp [hcollecting]⟩
  case refine_3 =>
    have hji : j ≠ i := fun he => by simp [he, hs] at hj
    exact hp j other <| update_some_eq_some.mpr <| .inr ⟨hji, hj⟩

-- A scheduler goes that is stopped and has no channels.
theorem Owned.dismiss (h : y.Owned) (hs : y.schedulers i = some scheduler) (hr : scheduler.running = false)
    (hc : scheduler.channels = 0) : Owned { y with schedulers := Function.update y.schedulers i none } := by
  have hold : ∀ {j other}, Function.update y.schedulers i none j = some other →
      j ≠ i ∧ y.schedulers j = some other := by
    intro j other hj
    have hji : j ≠ i := fun he => by simp [he] at hj
    exact ⟨hji, by simpa [hji] using hj⟩
  refine { h with
    member := fun j other hj => h.member j other (hold hj).2
    used   := fun j other k impl hj hp hk => h.used j other k impl (hold hj).2 hp hk
    idle   := fun k impl hk hp => ?_ }
  by_cases hi : scheduler.profiler = some k
  case pos =>
    obtain ⟨hdata, hcollecting⟩ := h.used i scheduler k impl hs hi hk
    refine ⟨hdata.trans hc, Bool.eq_false_iff.mpr fun ht => ?_⟩
    simpa [hr] using (hcollecting.mp ht).1
  case neg =>
    refine h.idle k impl hk fun j other hj => ?_
    by_cases hji : j = i
    case pos =>
      subst hji
      obtain rfl : scheduler = other := Option.some.inj <| hs.symm.trans hj
      exact hi
    case neg => exact hp j other <| by simpa [hji] using hj

theorem Impl.stop_error {impl : Impl} (he : impl.stop = .error fault) : fault = .assertion := by
  obtain he | ⟨_, _, he⟩ := bind_eq_error.mp he
  · exact eq_assertion he
  · contradiction

theorem Owned.stop (h : y.Owned) (hs : y.schedulers i = some scheduler) (he : y.stop i scheduler = .ok y') :
    y'.Owned ∧ y'.schedulers i = some { scheduler with running := false } := by
  obtain ⟨_, _, he⟩ := bind_eq_ok.mp he
  obtain ⟨z, hz, he⟩ := bind_eq_ok.mp he
  obtain rfl := Except.ok.inj he
  exact ⟨h.serves hs rfl (fun _ _ hd _ => Impl.stop_serves hd) hz, Function.update_self ..⟩

theorem Owned.stop_error (h : y.Owned) (hs : y.schedulers i = some scheduler)
    (he : y.stop i scheduler = .error fault) : fault = .assertion := by
  obtain he | ⟨_, _, he⟩ := bind_eq_error.mp he
  · exact eq_assertion he
  · obtain he | ⟨_, _, he⟩ := bind_eq_error.mp he
    · exact h.onProfiler_error hs (fun _ _ => Impl.stop_error) he
    · contradiction

-- The scheduler is stopped, whether it was running or not.
theorem Owned.stopped (h : y.Owned) (hs : y.schedulers i = some scheduler)
    (he : (if scheduler.running then y.stop i scheduler else .ok y) = .ok y') :
    y'.Owned ∧ y'.schedulers i = some { scheduler with running := false } := by
  split at he
  case isTrue => exact h.stop hs he
  case isFalse hr =>
    obtain rfl := Except.ok.inj he
    have hsame : { scheduler with running := false } = scheduler := by
      rw [← Bool.eq_false_iff.mpr hr]
    exact ⟨h, hsame ▸ hs⟩

theorem Owned.destroyScheduler (h : y.Owned) (hs : y.schedulers i = some scheduler) :
    (∀ y', y.destroyScheduler i scheduler = .ok y' → y'.Owned) ∧
    ∀ fault, y.destroyScheduler i scheduler = .error fault → fault = .assertion := by
  have hdestruct : ∀ z, (if scheduler.running then y.stop i scheduler else .ok y) = .ok z →
      scheduler.channels = 0 →
      ∃ z', Profilers.destruct { z with schedulers := Function.update z.schedulers i none } i = .ok z' ∧
        z'.Owned := by
    intro z hz hc
    obtain ⟨hz, hsz⟩ := h.stopped hs hz
    exact (hz.dismiss hsz rfl hc).destruct (hz.member i _ hsz).1 (Function.update_self ..)
  refine ⟨fun y' he => ?_, fun fault he => ?_⟩
  case refine_1 =>
    obtain ⟨z, hz, he⟩ := bind_eq_ok.mp he
    obtain ⟨_, hc, he⟩ := bind_eq_ok.mp he
    obtain ⟨z', hz', howned⟩ := hdestruct z hz (of_demand hc)
    exact Except.ok.inj (hz'.symm.trans he) ▸ howned
  case refine_2 =>
    obtain he | ⟨z, hz, he⟩ := bind_eq_error.mp he
    case inl =>
      split at he
      case isTrue  => exact h.stop_error hs he
      case isFalse => contradiction
    case inr =>
      obtain he | ⟨_, hc, he⟩ := bind_eq_error.mp he
      case inl => exact eq_assertion he
      case inr =>
        obtain ⟨z', hz', _⟩ := hdestruct z hz (of_demand hc)
        exact nomatch hz'.symm.trans he

end Schedulers

theorem newImpl_error {bound : Bound} {handle : Handle} {aggregationTimeMsec bufferSize : Int}
    (he : y.newImpl i bound handle aggregationTimeMsec bufferSize = .error fault) : fault = .assertion := by
  obtain he | ⟨_, _, he⟩ := bind_eq_error.mp he
  · exact eq_assertion he
  · obtain he | ⟨_, _, he⟩ := bind_eq_error.mp he
    · exact eq_assertion he
    · contradiction

theorem construct_error {memory uri : List Char} {aggregationTimeMsec bufferSize : Int} {opened : Bool}
    (hm : memory.length = 16) (hn : CText.nul ∉ uri)
    (he : y.construct aton i memory uri aggregationTimeMsec bufferSize opened = .error fault) :
    fault = .assertion ∨ fault = .undefined := by
  obtain he | ⟨target, _, he⟩ := bind_eq_error.mp he
  case inl => exact Profiler.destinationOf_error hm hn he
  case inr =>
    refine .inl ?_
    cases target
    case none => contradiction
    case udp address port _ =>
      obtain he | ⟨_, _, he⟩ := bind_eq_error.mp he
      · exact eq_assertion he
      · cases haddr : aton address
        case none =>
          simp only [haddr] at he
          exact (Except.error.inj he).symm
        case some addr =>
          simp only [haddr] at he
          exact newImpl_error he
    case file filename _ =>
      obtain he | ⟨_, _, he⟩ := bind_eq_error.mp he
      · exact eq_assertion he
      · exact newImpl_error he

-- The calls of a scheduler that check first, and then call the profiler.
theorem Owned.scheduled {scheduler scheduler' : Scheduler} {f : Impl → Except ProfilerFault Impl} (h : y.Owned)
    (hs : y.schedulers i = some scheduler) (hp : scheduler'.profiler = scheduler.profiler)
    (hf : ∀ impl impl', impl.profileData = scheduler.channels →
      (impl.collecting = true ↔ scheduler.running = true ∧ impl.aggregationTimeMsec ≠ 0) →
      f impl = .ok impl' → Impl.Serves scheduler' impl impl')
    (hf' : ∀ impl fault, f impl = .error fault → fault = .assertion) :
    (∀ y', (do
      let y ← y.onProfiler scheduler f
      return y.setScheduler i scheduler') = .ok y' → y'.Owned) ∧
    ∀ fault, (do
      let y ← y.onProfiler scheduler f
      return y.setScheduler i scheduler') = .error fault → fault = .assertion := by
  refine ⟨fun y' he => ?_, fun fault he => ?_⟩
  case refine_1 =>
    obtain ⟨z, hz, he⟩ := bind_eq_ok.mp he
    obtain rfl := Except.ok.inj he
    exact h.serves hs hp hf hz
  case refine_2 =>
    obtain he | ⟨_, _, he⟩ := bind_eq_error.mp he
    · exact h.onProfiler_error hs hf' he
    · contradiction

theorem move_schedulers : (y.move i o).schedulers = y.schedulers := by
  rw [move]
  split <;> rfl

theorem isSome_move (ho : (y.handles o).isSome = true) : ((y.move i o).handles i).isSome = true := by
  obtain ⟨other, hother⟩ := Option.isSome_iff_exists.mp ho
  rw [move, hother]
  by_cases hio : i = o
  case pos => simp [hio]
  case neg => simp [hio]

theorem Impl.start_error {impl : Impl} (he : impl.start = .error fault) : fault = .assertion := by
  obtain he | ⟨_, _, he⟩ := bind_eq_error.mp he
  · exact eq_assertion he
  · contradiction

theorem Impl.addProfileData_error {impl : Impl} (he : impl.addProfileData = .error fault) :
    fault = .assertion := by
  obtain he | ⟨_, _, he⟩ := bind_eq_error.mp he
  · exact eq_assertion he
  · contradiction

theorem Impl.removeProfileData_error {impl : Impl} (he : impl.removeProfileData = .error fault) :
    fault = .assertion := by
  obtain he | ⟨_, _, he⟩ := bind_eq_error.mp he
  · exact eq_assertion he
  · obtain he | ⟨_, _, he⟩ := bind_eq_error.mp he
    · exact eq_assertion he
    · contradiction

omit [DecidableEq ι] in
-- An assertion before a call.
theorem demand_bind {p : Prop} [Decidable p] {x : Except ProfilerFault (Profilers ι)}
    (h : (∀ y', x = .ok y' → y'.Owned) ∧ ∀ fault, x = .error fault → fault = .assertion) :
    (∀ y', (demand p >>= fun _ => x) = .ok y' → y'.Owned) ∧
    ∀ fault, (demand p >>= fun _ => x) = .error fault → fault = .assertion := by
  refine ⟨fun y' he => ?_, fun fault he => ?_⟩
  case refine_1 =>
    obtain ⟨_, _, he⟩ := bind_eq_ok.mp he
    exact h.1 y' he
  case refine_2 =>
    obtain he | ⟨_, _, he⟩ := bind_eq_error.mp he
    · exact eq_assertion he
    · exact h.2 fault he

theorem Owned.exec (h : y.Owned) (hg : y.Guard a) (hc : y.Careful a) :
    (∀ y', y.exec aton a = .ok y' → y'.Owned) ∧
    ∀ fault, y.exec aton a = .error fault → fault = .assertion ∨ fault = .undefined := by
  suffices hfault : (∀ i memory uri time size opened, a ≠ .construct i memory uri time size opened) →
      (∀ y', y.exec aton a = .ok y' → y'.Owned) ∧ ∀ fault, y.exec aton a = .error fault → fault = .assertion by
    cases a
    case construct => exact ⟨fun y' => h.construct hg.1, fun fault => construct_error hg.2.1 hg.2.2⟩
    all_goals exact (hfault nofun).imp_right fun hf fault he => .inl <| hf fault he
  intro hnot
  cases a
  case construct => exact (hnot _ _ _ _ _ _ rfl).elim
  case moveConstruct i o =>
    have hmove := h.move (h.no_scheduler hg.1) hc
    exact ⟨fun y' he => Except.ok.inj he ▸ hmove, nofun⟩
  case moveAssign i o =>
    have hmove := h.move hc.1 hc.2
    exact ⟨fun y' he => Except.ok.inj he ▸ hmove, nofun⟩
  case destruct i =>
    obtain ⟨z, hz, howned⟩ := h.destruct hg.1 hg.2
    exact ⟨fun y' he => Except.ok.inj (hz.symm.trans he) ▸ howned, fun fault he => nomatch hz.symm.trans he⟩
  case gatherNSend i =>
    have hsend : (y.implOf i).elim (.ok ()) y.send = .ok () := by
      cases hk : y.implOf i
      case none   => rfl
      case some k => exact h.send <| h.isSome_implOf hk
    simp only [Profilers.exec, hsend, ok_bind]
    exact ⟨fun y' he => Except.ok.inj he ▸ h, nofun⟩
  case collect k =>
    have hk : (y.impls k).isSome = true := by
      obtain ⟨impl, himpl, _⟩ := (Option.any_eq_true ..).mp hg
      simp [himpl]
    simp only [Profilers.exec, h.send hk, ok_bind]
    exact ⟨fun y' he => Except.ok.inj he ▸ h, nofun⟩
  case createScheduler i o =>
    have hs := h.no_scheduler hg.1
    have hs' : (y.move i o).schedulers i = none := by rw [move_schedulers, hs]
    have hcreate := (h.move hs hc).createScheduler hs' (isSome_move hg.2)
    exact ⟨fun y' he => Except.ok.inj he ▸ hcreate, nofun⟩
  all_goals
    rename_i i
    obtain ⟨scheduler, hs⟩ := Option.isSome_iff_exists.mp (show (y.schedulers i).isSome = true from hg)
    simp only [Profilers.exec, hs, Option.elim_some]
  case destroyScheduler => exact h.destroyScheduler hs
  case stop => exact ⟨fun y' he => (h.stop hs he).1, fun fault he => h.stop_error hs he⟩
  case start =>
    exact demand_bind <| h.scheduled hs rfl (fun _ _ hd _ => Impl.start_serves hd) fun _ _ => Impl.start_error
  case registerChannel =>
    exact demand_bind <| h.scheduled hs rfl (fun _ _ => Impl.addProfileData_serves)
      fun _ _ => Impl.addProfileData_error
  case unregisterChannel =>
    exact demand_bind <| demand_bind <| h.scheduled hs rfl (fun _ _ => Impl.removeProfileData_serves)
      fun _ _ => Impl.removeProfileData_error

theorem owned (h : (profilers ι aton).Reachable Careful y) : y.Owned :=
  h.induction (fun _ hi => hi ▸ .init) fun _ _ y' _ hy hc e => (hy.exec e.guard hc).1 y' e.exec

section Lost

omit [DecidableEq ι] in
theorem elim_lost {α : Type} {x : Option α} {f : α → Except ProfilerFault (Profilers ι)}
    (hf : ∀ a, f a = .ok y' → y'.lost = y.lost) (he : x.elim (.ok y) f = .ok y') : y'.lost = y.lost := by
  cases x
  case none   => exact (congrArg lost <| Except.ok.inj he).symm
  case some a => exact hf a he

omit [DecidableEq ι] in
theorem closeFile_lost {f : Nat} (he : y.closeFile f = .ok y') : y'.lost = y.lost := by
  rw [closeFile] at he
  split at he
  case isTrue  => exact Except.ok.inj he ▸ rfl
  case isFalse => contradiction

omit [DecidableEq ι] in
theorem deleteConnection_lost {c : Nat} (he : y.deleteConnection c = .ok y') : y'.lost = y.lost := by
  rw [deleteConnection] at he
  split at he
  case isTrue  => exact Except.ok.inj he ▸ rfl
  case isFalse => contradiction

omit [DecidableEq ι] in
theorem deleteImpl_lost (he : y.deleteImpl k = .ok y') : y'.lost = y.lost := by
  obtain ⟨impl, _, he⟩ := bind_eq_ok.mp he
  obtain ⟨_, _, he⟩ := bind_eq_ok.mp he
  split at he
  case isTrue  => contradiction
  case isFalse => exact Except.ok.inj he ▸ rfl

theorem newImpl_lost {bound : Bound} {handle : Handle} {aggregationTimeMsec bufferSize : Int}
    (he : y.newImpl i bound handle aggregationTimeMsec bufferSize = .ok y') : y'.lost = y.lost := by
  obtain ⟨_, _, he⟩ := bind_eq_ok.mp he
  obtain ⟨_, _, he⟩ := bind_eq_ok.mp he
  exact Except.ok.inj he ▸ rfl

theorem construct_lost {memory uri : List Char} {aggregationTimeMsec bufferSize : Int} {opened : Bool}
    (he : y.construct aton i memory uri aggregationTimeMsec bufferSize opened = .ok y') : y'.lost = y.lost := by
  obtain ⟨target, _, he⟩ := bind_eq_ok.mp he
  cases target
  case none => exact Except.ok.inj he ▸ rfl
  case udp address port _ =>
    obtain ⟨_, _, he⟩ := bind_eq_ok.mp he
    cases haddr : aton address
    case none => simp [haddr] at he
    case some addr =>
      simp only [haddr] at he
      exact (newImpl_lost he).trans rfl
  case file filename _ =>
    obtain ⟨_, _, he⟩ := bind_eq_ok.mp he
    exact (newImpl_lost he).trans rfl

theorem destruct_lost (he : y.destruct i = .ok y') : y'.lost = y.lost := by
  rw [destruct] at he
  split at he
  case h_1 => exact Except.ok.inj he ▸ rfl
  case h_2 handle _ =>
    obtain ⟨y₁, h₁, he⟩ := bind_eq_ok.mp he
    obtain ⟨y₂, h₂, he⟩ := bind_eq_ok.mp he
    obtain ⟨y₃, h₃, he⟩ := bind_eq_ok.mp he
    obtain rfl := Except.ok.inj he
    have hfile : y₁.lost = y.lost := elim_lost (fun _ => closeFile_lost) h₁
    have hconnection : y₂.lost = y₁.lost := elim_lost (fun _ => deleteConnection_lost) h₂
    have himpl : y₃.lost = y₂.lost := elim_lost (fun _ => deleteImpl_lost) h₃
    exact himpl.trans <| hconnection.trans hfile

omit [DecidableEq ι] in
theorem onProfiler_lost {scheduler : Scheduler} {f : Impl → Except ProfilerFault Impl}
    (he : y.onProfiler scheduler f = .ok y') : y'.lost = y.lost := by
  rw [onProfiler] at he
  split at he
  case h_1 => exact Except.ok.inj he ▸ rfl
  case h_2 =>
    obtain ⟨_, _, he⟩ := bind_eq_ok.mp he
    obtain ⟨_, _, he⟩ := bind_eq_ok.mp he
    exact Except.ok.inj he ▸ rfl

-- A call of the profiler, after which the scheduler remembers it.
theorem serves_lost {scheduler scheduler' : Scheduler} {f : Impl → Except ProfilerFault Impl}
    (he : (do
      let y ← y.onProfiler scheduler f
      return y.setScheduler i scheduler') = .ok y') : y'.lost = y.lost := by
  obtain ⟨z, hz, he⟩ := bind_eq_ok.mp he
  obtain rfl := Except.ok.inj he
  have hlost : z.lost = y.lost := onProfiler_lost hz
  exact hlost

theorem stop_lost {scheduler : Scheduler} (he : y.stop i scheduler = .ok y') : y'.lost = y.lost := by
  obtain ⟨_, _, he⟩ := bind_eq_ok.mp he
  exact serves_lost he

theorem destroyScheduler_lost {scheduler : Scheduler} (he : y.destroyScheduler i scheduler = .ok y') :
    y'.lost = y.lost := by
  obtain ⟨z, hz, he⟩ := bind_eq_ok.mp he
  obtain ⟨_, _, he⟩ := bind_eq_ok.mp he
  have hstop : z.lost = y.lost := by
    split at hz
    case isTrue  => exact stop_lost hz
    case isFalse => exact Except.ok.inj hz ▸ rfl
  exact (destruct_lost he).trans hstop

theorem move_lost (hi : y.implOf i = none) : (y.move i o).lost = y.lost := by
  rw [move, hi]
  split <;> rfl

-- Only an assignment makes anything get lost.
theorem exec_lost (hg : y.Guard a) (ht : y.Tidy a) (he : y.exec aton a = .ok y') : y'.lost = y.lost := by
  cases a
  case construct => exact construct_lost he
  case moveConstruct i o => exact Except.ok.inj he ▸ move_lost (by simp [implOf, hg.1])
  case moveAssign i o => exact Except.ok.inj he ▸ move_lost (not_not.mp ht.2)
  case destruct => exact destruct_lost he
  case createScheduler i o =>
    have hi : y.implOf i = none := by simp [implOf, hg.1]
    obtain rfl := Except.ok.inj he
    exact move_lost hi
  case gatherNSend | collect =>
    obtain ⟨_, _, he⟩ := bind_eq_ok.mp he
    exact Except.ok.inj he ▸ rfl
  case destroyScheduler => exact elim_lost (fun _ => destroyScheduler_lost) he
  case stop => exact elim_lost (fun _ => stop_lost) he
  case start | registerChannel =>
    refine elim_lost (fun scheduler he => ?_) he
    obtain ⟨_, _, he⟩ := bind_eq_ok.mp he
    exact serves_lost he
  case unregisterChannel =>
    refine elim_lost (fun scheduler he => ?_) he
    obtain ⟨_, _, he⟩ := bind_eq_ok.mp he
    obtain ⟨_, _, he⟩ := bind_eq_ok.mp he
    exact serves_lost he

end Lost

theorem lost_eq_nil (h : (profilers ι aton).Reachable Tidy y) : y.lost = [] :=
  h.induction (fun y (hi : y = _) => hi ▸ rfl) fun _ _ _ _ hl ht e => (exec_lost e.guard ht e.exec).trans hl

end Profilers

open Profilers

variable {ι : Type} [DecidableEq ι] {aton : List Char → Option InAddr} {y : Profilers ι}

-- Nobody ever sends to a file that is closed or through a connection that is gone, nor destroys anything
-- twice, as long as nothing is moved out of the `Profiler` of a scheduler or into it. Every destination
-- belongs to one implementation, and this one to one `Profiler` unless it is lost. A collector thread
-- runs only for a scheduler that does.
theorem profilers_live (h : (profilers ι aton).Reachable Careful y) :
    (∀ a fault, y.Guard a → y.Careful a → (profilers ι aton).exec y a = .error fault →
      fault = .assertion ∨ fault = .undefined) ∧
    (∀ k impl, y.impls k = some impl → y.Open impl.bound = true ∧
      (k ∈ y.lost ∨ ∃ i, ∀ j, y.implOf j = some k ↔ j = i) ∧
      (impl.collecting = true → ∃ i scheduler, y.schedulers i = some scheduler ∧
        scheduler.running = true ∧ y.implOf i = some k)) ∧
    ∀ bound, y.Open bound = true → ∃ k, ∀ k', (∃ impl, y.impls k' = some impl ∧ impl.bound = bound) ↔ k' = k := by
  have hy := owned h
  refine ⟨fun a fault hg hc => (hy.exec hg hc).2 fault, fun k impl hk => ⟨(hy.bound k impl hk).2, ?_, fun hr => ?_⟩,
    fun bound hb => ?_⟩
  case refine_1 =>
    by_cases hl : k ∈ y.lost
    case pos => exact .inl hl
    case neg =>
      obtain ⟨holder, hlinks⟩ := hy.links
      obtain ⟨i, _, hi⟩ := hlinks.exists_iff (r := k) ⟨by simp [hk], hl⟩
      exact .inr ⟨i, hi⟩
  case refine_2 =>
    by_contra hnone
    have hidle := hy.idle k impl hk fun i scheduler hs hp => hnone ?_
    · simp [hidle.2] at hr
    · obtain ⟨hrunning, _⟩ := (hy.used i scheduler k impl hs hp hk).2.mp hr
      exact ⟨i, scheduler, hs, hrunning, (hy.member i scheduler hs).2.symm.trans hp⟩
  case refine_3 =>
    obtain ⟨k, impl, hk, rfl⟩ := hy.opened bound hb
    refine ⟨k, fun k' => ⟨?_, fun he => ⟨impl, he ▸ hk, rfl⟩⟩⟩
    rintro ⟨impl', hk', he⟩
    obtain hb | hb := (hy.bound k impl hk).1
    all_goals
      obtain hb' | hb' := (hy.bound k' impl' hk').1
      all_goals simp_all

-- A scheduler runs with a profiler that was moved into it, and the collector thread has sent something.
theorem profilers_live_collecting :
    ∃ (y : Profilers Nat) (impl : Impl), y.impls 0 = some impl ∧ impl.collecting = true ∧
      y.Open impl.bound = true ∧ y.connections 0 = some (⟨127, 0, 0, 1⟩, 8888) ∧
      ∃ i scheduler, y.schedulers i = some scheduler ∧ scheduler.running = true ∧ y.implOf i = some 0 := by
  obtain ⟨y, hy, hi, hc⟩ := Machine.exists_reachable_of_replay (M := profilers Nat localhost)
    (s := ⟨fun _ => none, fun _ => none, fun _ => none, fun _ => none, 0, fun _ => none, []⟩) Careful [
      .construct 0 (.replicate 16 'x') (Profiler.udpUri ⟨127, 0, 0, 1⟩ 8888) 100 0 true,
      .createScheduler 1 0,
      .destruct 0,
      .registerChannel 1,
      .start 1,
      .collect 0]
    (P := fun y => (y.impls 0).any Impl.collecting = true ∧ y.connections 0 = some (⟨127, 0, 0, 1⟩, 8888))
    rfl (by decide +kernel)
  obtain ⟨impl, himpl, hcollecting⟩ := (Option.any_eq_true ..).mp hi
  obtain ⟨hopen, _, hscheduler⟩ := (profilers_live hy).2.1 0 impl himpl
  exact ⟨y, impl, himpl, hcollecting, hopen, hc, hscheduler hcollecting⟩

-- If nothing is assigned to a `Profiler` that has a destination, nothing is left when all of them are gone.
theorem profilers_closed (h : (profilers ι aton).Reachable Tidy y) (hnone : ∀ i, y.handles i = none) :
    (∀ k, y.impls k = none) ∧ ∀ bound, y.Open bound = false := by
  have hy := owned <| h.mono fun _ _ => And.left
  have himpls : ∀ k, y.impls k = none := by
    intro k
    by_contra hk
    obtain ⟨holder, hlinks⟩ := hy.links
    obtain ⟨i, _, hi⟩ := hlinks.owned k ⟨Option.isSome_iff_ne_none.mpr hk, by simp [lost_eq_nil h]⟩
    simp [implOf, hnone] at hi
  refine ⟨himpls, fun bound => Bool.eq_false_iff.mpr fun hb => ?_⟩
  obtain ⟨k, impl, hk, _⟩ := hy.opened bound hb
  simp [himpls] at hk

-- A file is opened, and the `Profiler` moved and destroyed.
theorem profilers_closed_moved :
    ∃ y : Profilers Bool, (profilers Bool localhost).Reachable Tidy y ∧ y.next = 1 ∧
      ∀ bound, y.Open bound = false := by
  obtain ⟨y, hy, hn, hnone⟩ := Machine.exists_reachable_of_replay (M := profilers Bool localhost)
    (s := ⟨fun _ => none, fun _ => none, fun _ => none, fun _ => none, 0, fun _ => none, []⟩) Tidy [
      .construct false (.replicate 16 'x') ['f', 'i', 'l', 'e', ':', 'l'] 0 0 true,
      .moveConstruct true false,
      .destruct false,
      .gatherNSend true,
      .destruct true]
    (P := fun y => y.next = 1 ∧ ∀ i, y.handles i = none) rfl (by decide +kernel)
  exact ⟨y, hy, hn, (profilers_closed hy hnone).2⟩

end PipeRT
