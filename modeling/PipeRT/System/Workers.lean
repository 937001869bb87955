import PipeRT.System.Advance

namespace PipeRT

namespace Worker

-- The worker is between taking a packet of a state and finishing with it.
def occupies (state : Ptr) : Worker → Bool
  | executing x _ _ | finishing x => x = state ∧ state ≠ nullptr
  | _                             => false

variable {workers : List Worker} {i wake : Nat} {w w₀ : Worker}

theorem notifyOne_cases (workers : List Worker) (wake : Nat) :
    (.waiting ∉ workers ∧ notifyOne workers wake = workers) ∨
    (∃ i, workers[i]? = some .waiting ∧ notifyOne workers wake = workers.set i .notified) := by
  rw [notifyOne]
  split
  case isTrue h => exact .inr ⟨wake, h, rfl⟩
  case isFalse =>
    split
    case isTrue h  => exact .inr ⟨_, List.getElem?_idxOf h, rfl⟩
    case isFalse h => exact .inl ⟨h, rfl⟩

theorem countP_set_of_eq {f : Worker → Bool} (hi : workers[i]? = some w₀) (hf : f w = f w₀) :
    (workers.set i w).countP f = workers.countP f := by
  have ⟨hlt, he⟩ := List.getElem?_eq_some_iff.mp hi
  have hpos : f w₀ = true → 0 < workers.countP f := fun hw =>
    List.countP_pos_iff.mpr ⟨w₀, List.mem_of_getElem? hi, hw⟩
  rw [List.countP_set hlt, he, hf]
  cases hw : f w₀
  case true  => have := hpos hw; simp; omega
  case false => simp

theorem mem_notifyOne (h : w ∈ notifyOne workers wake) : w ∈ workers ∨ w = .notified := by
  obtain ⟨_, he⟩ | ⟨i, _, he⟩ := notifyOne_cases workers wake
  · exact .inl (he ▸ h)
  · exact List.mem_or_eq_of_mem_set (he ▸ h)

@[simp]
theorem length_notifyOne : (notifyOne workers wake).length = workers.length := by
  obtain ⟨_, he⟩ | ⟨i, _, he⟩ := notifyOne_cases workers wake <;> simp [he]

theorem countP_occupies_notifyOne (state : Ptr) :
    (notifyOne workers wake).countP (occupies state) = workers.countP (occupies state) := by
  obtain ⟨_, he⟩ | ⟨i, hi, he⟩ := notifyOne_cases workers wake
  · rw [he]
  · exact he ▸ countP_set_of_eq hi rfl

end Worker

namespace SchedulerImpl

variable {s s' : SchedulerImpl} {c : ChannelId} {ch ch' : ChannelImpl} {state : Ptr} {p : Slot}
variable {wake : Option Nat} {i : Nat} {w w₀ : Worker}

theorem subscript_enabled (s : SchedulerImpl) (x : Ptr) :
    (s.subscript x).enabled = ((s.state2channelQueues x).map (·.enabled)).getD true := by
  cases h : s.state2channelQueues x <;> simp [subscript, h, EnabledChannelHeap.new]

theorem Requeued.subscript_enabled (hr : Requeued s s' wake) (x : Ptr) :
    (s'.subscript x).enabled = (s.subscript x).enabled := by
  rw [SchedulerImpl.subscript_enabled, hr.enabled, ← SchedulerImpl.subscript_enabled]

theorem Taken.subscript_enabled (ht : Taken s s' state c ch') (x : Ptr) :
    (s'.subscript x).enabled =
    if x = state ∧ state ≠ nullptr then false else (s.subscript x).enabled := by
  rw [SchedulerImpl.subscript_enabled, ht.enabled, SchedulerImpl.subscript_enabled]
  split <;> rfl

theorem Taken.workers (ht : Taken s s' state c ch') : s'.workers = s.workers := by
  rw [ht.frame]

theorem Taken.impls (ht : Taken s s' state c ch') :
    s'.impls = Function.update s.impls c (some ch') := by
  rw [ht.frame]

theorem Finished.subscript_enabled (hf : Finished s s' state) (x : Ptr) :
    (s'.subscript x).enabled = if x = state then true else (s.subscript x).enabled := by
  rw [SchedulerImpl.subscript_enabled, hf.enabled, SchedulerImpl.subscript_enabled]
  split <;> rfl

theorem Finished.workers (hf : Finished s s' state) : s'.workers = s.workers := by
  rw [hf.frame]

theorem Finished.impls (hf : Finished s s' state) : s'.impls = s.impls := by
  rw [hf.frame]

theorem Enabled.subscript (h : s.Enabled state) : (s.subscript state).enabled = true := by
  have ⟨chq, hq, hen⟩ := h
  rw [subscript_eq hq, hen]

theorem getElem?_setWorker (hi : s.workers[i]? = some w₀) : (s.setWorker i w).workers[i]? = some w :=
  have ⟨hlt, _⟩ := List.getElem?_eq_some_iff.mp hi
  List.getElem?_set_self hlt

-- A worker that may look for work is not occupied.
theorem exists_served (hi : s.workers[i]? = some .locking ∨ s.workers[i]? = some .notified) :
    ∃ w₀, s.workers[i]? = some w₀ ∧ ∀ x, w₀.occupies x = false := by
  cases hi
  case inl hi => exact ⟨_, hi, fun _ => rfl⟩
  case inr hi => exact ⟨_, hi, fun _ => rfl⟩

-- An update of a channel which leaves its state.
theorem exists_impl_update {impls : ChannelId → Option ChannelImpl} {a : ChannelId}
    (hst : ∀ ch, impls c = some ch → ch'.singleThreadObject = ch.singleThreadObject)
    (h : ∃ x, impls a = some x ∧ x.singleThreadObject = state) :
    ∃ x, Function.update impls c (some ch') a = some x ∧ x.singleThreadObject = state := by
  have ⟨x, hx, hxs⟩ := h
  by_cases ha : a = c
  case pos => exact ⟨ch', by simp [ha], (hst x (ha ▸ hx)).trans hxs⟩
  case neg => simpa [ha] using h

-- A state is disabled while a worker is occupied with it, and only then. It never is more than one.
structure Staffed (s : SchedulerImpl) : Prop where
  exclusive : ∀ state, s.workers.countP (Worker.occupies state) =
              if (s.subscript state).enabled then 0 else 1
  executing : ∀ state c p, .executing state c p ∈ s.workers →
              ∃ ch, s.impls c = some ch ∧ ch.singleThreadObject = state

namespace Staffed

theorem congr (h : s.Staffed) (hw : s'.workers = s.workers)
    (he : ∀ x, (s'.subscript x).enabled = (s.subscript x).enabled)
    (hi : ∀ a x, (∃ ch, s.impls a = some ch ∧ ch.singleThreadObject = x) →
      ∃ ch, s'.impls a = some ch ∧ ch.singleThreadObject = x) : s'.Staffed where
  exclusive x := by rw [hw, he, h.exclusive]
  executing x c p hm := hi c x <| h.executing x c p (hw ▸ hm)

theorem setWorker (h : s.Staffed) (hi : s.workers[i]? = some w₀)
    (ho : ∀ x, w.occupies x = w₀.occupies x)
    (hw : ∀ x c p, w ≠ .executing x c p) : (s.setWorker i w).Staffed where
  exclusive x := (Worker.countP_set_of_eq hi (ho x)).trans (h.exclusive x)
  executing x c p hm := by
    cases List.mem_or_eq_of_mem_set hm
    case inl hm => exact h.executing x c p hm
    case inr he => exact absurd he.symm (hw x c p)

theorem requeued (h : s.Staffed)
    (hst : ∀ ch, s.impls c = some ch → ch'.singleThreadObject = ch.singleThreadObject)
    (hr : Requeued (s.setImpl c ch') s' wake) : s'.Staffed where
  exclusive x := by
    rw [hr.subscript_enabled]
    refine .trans ?_ (h.exclusive x)
    obtain ⟨hw, _⟩ | ⟨w, _, hw⟩ := hr.workers
    · rw [hw, setImpl_workers]
    · rw [hw, Worker.countP_occupies_notifyOne, setImpl_workers]
  executing x a p hm := by
    have hm : .executing x a p ∈ s.workers := by
      obtain ⟨hw, _⟩ | ⟨w, _, hw⟩ := hr.workers
      · exact hw ▸ hm
      · exact (Worker.mem_notifyOne (hw ▸ hm)).resolve_right nofun
    rw [hr.impls]
    exact exists_impl_update hst <| h.executing x a p hm

theorem taken (h : s.Staffed) (ht : Taken s s' state c ch') (hc : s.impls c = some ch)
    (hst : ch.singleThreadObject = state) (hst' : ch'.singleThreadObject = ch.singleThreadObject)
    (hen : s.Enabled state) (hi : s.workers[i]? = some w₀) (ho : ∀ x, w₀.occupies x = false) :
    (s'.setWorker i (.executing state c p)).Staffed where
  exclusive x := by
    have ⟨hlt, he⟩ := List.getElem?_eq_some_iff.mp (ht.workers ▸ hi)
    change (s'.workers.set i (.executing state c p)).countP _ = if (s'.subscript x).enabled then 0 else 1
    rw [List.countP_set hlt, he, ho, ht.workers, h.exclusive, ht.subscript_enabled]
    by_cases hx : x = state ∧ state ≠ nullptr
    case pos =>
      obtain ⟨rfl, hn⟩ := hx
      simp [hen.subscript, hn, Worker.occupies]
    case neg =>
      have hno : (Worker.executing state c p).occupies x = false := by
        simp only [Worker.occupies, decide_eq_false_iff_not]
        rintro ⟨rfl, hn⟩
        exact hx ⟨rfl, hn⟩
      rw [if_neg hx, hno]
      simp
  executing x a p' hm := by
    change ∃ ch, s'.impls a = some ch ∧ ch.singleThreadObject = x
    rw [ht.impls]
    cases List.mem_or_eq_of_mem_set hm
    case inl hm =>
      refine exists_impl_update (fun ch hch => ?_) <| h.executing x a p' (ht.workers ▸ hm)
      rwa [← Option.some.inj (hc.symm.trans hch)]
    case inr he =>
      injection he with hxs hac
      exact ⟨ch', by simp [hac], by rw [hst', hst, hxs]⟩

theorem finished (h : s.Staffed) (hf : Finished s s' state) (hn : state ≠ nullptr)
    (hi : s.workers[i]? = some (.finishing state)) : (s'.setWorker i .looping).Staffed where
  exclusive x := by
    have ⟨hlt, he⟩ := List.getElem?_eq_some_iff.mp (hf.workers ▸ hi)
    change (s'.workers.set i .looping).countP _ = if (s'.subscript x).enabled then 0 else 1
    rw [List.countP_set hlt, he, hf.workers, h.exclusive, hf.subscript_enabled]
    by_cases hx : x = state
    case pos =>
      subst hx
      cases (s.subscript x).enabled <;> simp [Worker.occupies, hn]
    case neg =>
      have hno : (Worker.finishing state).occupies x = false := by
        simp [Worker.occupies, Ne.symm hx]
      rw [if_neg hx, hno]
      simp [Worker.occupies]
  executing x a p hm := by
    change ∃ ch, s'.impls a = some ch ∧ ch.singleThreadObject = x
    rw [hf.impls]
    cases List.mem_or_eq_of_mem_set hm
    case inl hm => exact h.executing x a p (hf.workers ▸ hm)
    case inr he => contradiction

theorem spawn (h : s.Staffed) : s.spawn.Staffed where
  exclusive x := by
    change (s.workers ++ [Worker.looping]).countP _ = _
    rw [List.countP_append, h.exclusive]
    rfl
  executing x c p hm := by
    cases List.mem_append.mp hm
    case inl hm => exact h.executing x c p hm
    case inr hm => exact absurd (List.mem_singleton.mp hm) nofun

theorem notifyAll (h : s.Staffed) : s.notifyAll.Staffed where
  exclusive x := by
    refine .trans ?_ (h.exclusive x)
    change List.countP _ (s.workers.map _) = _
    rw [List.countP_map]
    refine List.countP_congr fun w _ => ?_
    by_cases hw : w = .waiting <;> simp [hw, Worker.occupies]
  executing x c p hm := by
    have ⟨w, hw, he⟩ := List.mem_map.mp hm
    split at he
    case isTrue  => contradiction
    case isFalse => exact h.executing x c p (he ▸ hw)

-- The workers have exited, so that none of them is occupied.
theorem join (h : s.Staffed) (hw : ∀ w ∈ s.workers, w = .exited) : s.join.Staffed where
  exclusive x := by
    refine .trans ?_ (h.exclusive x)
    exact (List.countP_eq_zero.mpr fun w hm => by simp [hw w hm, Worker.occupies]).symm
  executing _ _ _ hm := absurd hm List.not_mem_nil

theorem enter (h : s.Staffed) (hi : s.workers[i]? = some .looping) (hw : w = .locking ∨ w = .exited) :
    (s.setWorker i w).Staffed := by
  cases hw
  case inl hw => exact h.setWorker hi (fun _ => hw ▸ rfl) fun _ _ _ => hw ▸ nofun
  case inr hw => exact h.setWorker hi (fun _ => hw ▸ rfl) fun _ _ _ => hw ▸ nofun

theorem returned (h : s.Staffed) (hi : s.workers[i]? = some (.finishing nullptr)) :
    (s.setWorker i .looping).Staffed := by
  refine h.setWorker hi (fun x => ?_) nofun
  simp +contextual [Worker.occupies, eq_comm]

theorem disabled (h : s.Staffed) (hn : state ≠ nullptr)
    (hi : s.workers[i]? = some (.finishing state)) : (s.subscript state).enabled = false := by
  have hpos : 0 < s.workers.countP (Worker.occupies state) :=
    List.countP_pos_iff.mpr ⟨_, List.mem_of_getElem? hi, by simp [Worker.occupies, hn]⟩
  rw [h.exclusive] at hpos
  cases he : (s.subscript state).enabled
  case false => rfl
  case true  => simp [he] at hpos

end Staffed
end SchedulerImpl

namespace Control

-- `running_`
def isRunning : Control → Bool
  | stopped => false
  | _       => true

-- `keep_running_`
def keepsRunning : Control → Bool
  | starting _ | running => true
  | _                    => false

-- How many workers `Start` has not created yet.
def left : Control → Nat
  | starting left => left
  | _             => 0

end Control

-- What the scheduler looks like while it is started and stopped.
structure Phase (control : Control) (s : SchedulerImpl) : Prop where
  running  : s.running = control.isRunning
  keeps    : s.keepRunning = control.keepsRunning
  number   : 0 < s.workersNumber
  complete : control.keepsRunning = true → s.workers.length + control.left = s.workersNumber
  idle     : control = .stopped → s.workers = []
  awake    : control = .joining → .waiting ∉ s.workers

namespace Phase

variable {control : Control} {s s' : SchedulerImpl} {i wake : Nat} {w w₀ : Worker}

theorem congr (h : Phase control s) (hr : s'.running = s.running)
    (hk : s'.keepRunning = s.keepRunning) (hn : s'.workersNumber = s.workersNumber)
    (hl : s'.workers.length = s.workers.length)
    (hw : control = .joining → .waiting ∈ s'.workers → .waiting ∈ s.workers) : Phase control s' where
  running     := hr.trans h.running
  keeps       := hk.trans h.keeps
  number      := hn ▸ h.number
  complete hc := by rw [hl, hn, h.complete hc]
  idle hc     := List.eq_nil_of_length_eq_zero <| by rw [hl, h.idle hc]; rfl
  awake hc hm := h.awake hc (hw hc hm)

-- The other members of the scheduler do not matter.
theorem same (h : Phase control s) (hs : (s'.running, s'.keepRunning, s'.workersNumber, s'.workers) =
    (s.running, s.keepRunning, s.workersNumber, s.workers)) : Phase control s' := by
  obtain ⟨hr, hk, hn, hw⟩ := Prod.mk.inj hs |>.imp_right fun hs => Prod.mk.inj hs |>.imp_right Prod.mk.inj
  exact h.congr hr hk hn (congrArg List.length hw) fun _ hm => hw ▸ hm

theorem setWorker (h : Phase control s) (hw : w = .waiting → s.keepRunning = true) :
    Phase control (s.setWorker i w) := by
  refine h.congr rfl rfl rfl List.length_set fun hc hm => ?_
  cases List.mem_or_eq_of_mem_set hm
  case inl hm => exact hm
  case inr he =>
    have := h.keeps.symm.trans (hw he.symm)
    simp [hc, Control.keepsRunning] at this

theorem start (h : Phase .stopped s) :
    Phase (.starting s.workersNumber) { s with running := true, keepRunning := true } where
  running    := rfl
  keeps      := rfl
  number     := h.number
  complete _ := by simp [h.idle rfl, Control.left]
  idle       := nofun
  awake      := nofun

theorem spawn {left : Nat} (h : Phase (.starting (left + 1)) s) : Phase (.starting left) s.spawn where
  running    := h.running
  keeps      := h.keeps
  number     := h.number
  complete _ := by
    have hlen := h.complete rfl
    simp only [Control.left] at hlen
    simp only [SchedulerImpl.spawn, List.length_append, List.length_singleton, Control.left]
    omega
  idle       := nofun
  awake      := nofun

theorem started (h : Phase (.starting 0) s) : Phase .running s where
  running    := h.running
  keeps      := h.keeps
  number     := h.number
  complete _ := h.complete rfl
  idle       := nofun
  awake      := nofun

theorem stop (h : Phase .running s) : Phase .stopping { s with keepRunning := false } where
  running  := h.running
  keeps    := rfl
  number   := h.number
  complete := nofun
  idle     := nofun
  awake    := nofun

theorem notifyAll (h : Phase .stopping s) : Phase .joining s.notifyAll where
  running    := h.running
  keeps      := h.keeps
  number     := h.number
  complete   := nofun
  idle       := nofun
  awake _ hm := by
    have ⟨w, _, he⟩ := List.mem_map.mp hm
    split at he <;> contradiction

theorem join (h : Phase .joining s) : Phase .stopped s.join where
  running  := rfl
  keeps    := h.keeps
  number   := h.number
  complete := nofun
  idle _   := rfl
  awake    := nofun

theorem requeued {c : ChannelId} {ch : ChannelImpl} {wake : Option Nat} (h : Phase control s)
    (hr : SchedulerImpl.Requeued (s.setImpl c ch) s' wake) : Phase control s' := by
  have hw : s'.workers = s.workers ∨ ∃ wake, s'.workers = Worker.notifyOne s.workers wake := by
    obtain ⟨hw, _⟩ | ⟨w, _, hw⟩ := hr.workers
    · exact .inl hw
    · exact .inr ⟨w, hw⟩
  refine h.congr (by rw [hr.frame]; rfl) (by rw [hr.frame]; rfl) (by rw [hr.frame]; rfl) ?_ ?_
  · obtain hw | ⟨_, hw⟩ := hw <;> simp [hw]
  · obtain hw | ⟨_, hw⟩ := hw
    · exact fun _ hm => hw ▸ hm
    · exact fun _ hm => (Worker.mem_notifyOne (hw ▸ hm)).resolve_right nofun

end Phase
end PipeRT
