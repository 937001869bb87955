import PipeRT.System.Queues
import PipeRT.Scheduler.Capacity

namespace PipeRT

namespace SchedulerImpl

-- The registered channels of a state.
def channelsOf (s : SchedulerImpl) (state : Ptr) : List ChannelId :=
  s.channels.filter fun c => (s.impls c).any fun ch => ch.singleThreadObject = state

-- There is room for all channels and states that were registered.
structure Reserved (s : SchedulerImpl) : Prop where
  heaps   : ∀ x, (s.channelsOf x).length ≤ (s.subscript x).heap.capacity
  queue   : ∃ states : List Ptr, states.length ≤ s.stateQueue.capacity ∧
            ∀ x chq, s.state2channelQueues x = some chq → x ∈ states
  packets : ∀ c ch, s.impls c = some ch → ch.capacity ≤ ch.queuedPackets.capacity

-- The memory of the containers changes only by what `RegisterChannel` reserves for a channel of the
-- state `registered`.
structure Reserves (s s' : SchedulerImpl) (registered : Option Ptr) : Prop where
  heaps   : ∀ x, (s'.state2channelQueues x).map (·.heap.capacity) =
            if registered = some x then some ((s.subscript x).heap.capacity + 1)
            else (s.state2channelQueues x).map (·.heap.capacity)
  queue   : s'.stateQueue.capacity =
            s.stateQueue.capacity +
              (registered.any fun x => (s.state2channelQueues x).isNone).toNat
  packets : ∀ c ch ch', s.impls c = some ch → s'.impls c = some ch' →
            ch'.capacity = ch.capacity ∧ ch'.queuedPackets.capacity = ch.queuedPackets.capacity

variable {s s' : SchedulerImpl} {c : ChannelId} {ch ch' : ChannelImpl} {state x : Ptr}
variable {chq : EnabledChannelHeap}

theorem Reserved.new (workersNumber : Nat) (profiler : Bool) :
    (SchedulerImpl.new workersNumber profiler).Reserved where
  heaps _ := Nat.le_refl _
  queue   := ⟨[], Nat.le_refl _, nofun⟩
  packets := nofun

theorem WF.heap_subset (h : s.WF) (hx : s.state2channelQueues x = some chq) :
    chq.heap.heap ⊆ s.channelsOf x := by
  intro c hc
  have ⟨_, hv⟩ := ((h.heaps x chq hx).mem c).mp hc
  have ⟨ch, _, hch, _, hst, _⟩ := exists_impl_of_view hv
  exact List.mem_filter.mpr ⟨(h.live c).mpr ⟨ch, hch⟩, by simp [hch, hst]⟩

theorem WF.length_heap_le (h : s.WF) (hx : s.state2channelQueues x = some chq) :
    chq.heap.heap.length ≤ (s.channelsOf x).length :=
  (List.subperm_of_subset (h.heaps x chq hx).nodup (h.heap_subset hx)).length_le

theorem WF.length_queue_le {states : List Ptr} (h : s.WF)
    (hs : ∀ x chq, s.state2channelQueues x = some chq → x ∈ states) :
    s.stateQueue.heap.length ≤ states.length := by
  refine (List.subperm_of_subset h.nodup fun x hx => ?_).length_le
  have ⟨chq, hq, _⟩ := (h.mem x).mp hx
  exact hs x chq hq

theorem channelsOf_congr (hch : s'.channels = s.channels)
    (hst : ∀ c, (s'.impls c).map (·.singleThreadObject) = (s.impls c).map (·.singleThreadObject))
    (x : Ptr) : s'.channelsOf x = s.channelsOf x := by
  rw [channelsOf, channelsOf, hch]
  refine List.filter_congr fun c _ => ?_
  have := congrArg (fun st : Option Ptr => st.any fun st => decide (st = x)) (hst c)
  simpa only [Option.any_map] using this

theorem map_update {β : Type} {f : ChannelImpl → β} (hc : s.impls c = some ch) (hf : f ch' = f ch)
    (hi : s'.impls = Function.update s.impls c (some ch')) (a : ChannelId) :
    (s'.impls a).map f = (s.impls a).map f := by
  rw [hi]
  by_cases hac : a = c
  case pos => simp [hac, hc, hf]
  case neg => simp [hac]

theorem isSome_of_map {β : Type} {f : EnabledChannelHeap → β} {a b : Option EnabledChannelHeap}
    (h : a.map f = b.map f) : a.isSome = b.isSome := by
  simpa using congrArg Option.isSome h

-- Nothing has to grow that holds no more than there was room for.
theorem Reserved.reserves (h : s.Reserved) (hwf : s'.WF) (hk : s.Contained s')
    (hch : ∀ x, s'.channelsOf x = s.channelsOf x)
    (hkeys : ∀ x, (s'.state2channelQueues x).isSome = (s.state2channelQueues x).isSome)
    (hsize : ∀ c ch, s'.impls c = some ch → ch.queuedPackets.size ≤ ch.capacity) :
    s.Reserves s' none where
  heaps x := by
    have hkey := hkeys x
    rw [if_neg nofun]
    cases hx : s.state2channelQueues x
    case none => simpa [hx] using hkey
    case some chq =>
      have ⟨chq', hx'⟩ := Option.isSome_iff_exists.mp <| hkey.trans <| by simp [hx]
      have hle := (hch x ▸ hwf.length_heap_le hx').trans <| subscript_eq hx ▸ h.heaps x
      simp [hx', hk.heaps x chq chq' hx hx' hle]
  queue := by
    have ⟨states, hle, hs⟩ := h.queue
    refine hk.queue <| (hwf.length_queue_le fun x chq' hx' => ?_).trans hle
    have ⟨chq, hx⟩ := Option.isSome_iff_exists.mp <| (hkeys x).symm.trans <| by simp [hx']
    exact hs x chq hx
  packets c ch ch' hc hc' := by
    have hp := hk.packets c ch ch' hc hc'
    refine ⟨hp.capacity, hp.queue ?_⟩
    exact (hp.capacity ▸ hsize c ch' hc').trans (h.packets c ch hc)

-- Threads and flags take no room in the containers.
theorem Reserves.of_eq (hi : s'.impls = s.impls) (hq : s'.state2channelQueues = s.state2channelQueues)
    (hs : s'.stateQueue = s.stateQueue) : s.Reserves s' none where
  heaps x              := by rw [hq, if_neg nofun]
  queue                := by rw [hs]; rfl
  packets c ch ch' hc hc' := by
    obtain rfl := Option.some.inj <| hc.symm.trans (hi ▸ hc')
    exact ⟨rfl, rfl⟩

theorem Reserves.capacity {registered : Option Ptr} (hr : s.Reserves s' registered) (x : Ptr) :
    (s'.subscript x).heap.capacity =
    (s.subscript x).heap.capacity + if registered = some x then 1 else 0 := by
  have hsub (s : SchedulerImpl) : (s.subscript x).heap.capacity =
      ((s.state2channelQueues x).map (·.heap.capacity)).getD 0 := by
    cases hx : s.state2channelQueues x <;> simp [subscript, hx, EnabledChannelHeap.new, SteadyHeap.empty]
  rw [hsub s', hr.heaps]
  split
  case isTrue  => rfl
  case isFalse => exact (hsub s).symm

theorem Reserved.of_reserves (h : s.Reserved) (hr : s.Reserves s' none)
    (hch : ∀ x, (s'.channelsOf x).length ≤ (s.channelsOf x).length)
    (hlive : ∀ c ch', s'.impls c = some ch' → ∃ ch, s.impls c = some ch) : s'.Reserved where
  heaps x := (hch x).trans <| (h.heaps x).trans_eq (hr.capacity x).symm
  queue := by
    have ⟨states, hle, hs⟩ := h.queue
    refine ⟨states, hr.queue ▸ hle, fun x chq' hx' => ?_⟩
    have hcap := hr.heaps x
    rw [if_neg nofun, hx'] at hcap
    have ⟨chq, hx, _⟩ := Option.map_eq_some_iff.mp hcap.symm
    exact hs x chq hx
  packets c ch' hc' := by
    have ⟨ch, hc⟩ := hlive c ch' hc'
    have ⟨hcap, hq⟩ := hr.packets c ch ch' hc hc'
    exact hcap ▸ hq ▸ h.packets c ch hc

-- The two amounts that `RegisterChannel` reserves are enough for one more channel.
section Create

variable {name : String} {capacity : Nat} {callback : Bool}
variable (hrun : s.running = false) (hn : s.impls c = none)
variable (he : s.createChannel c name capacity state callback = .ok s')
include hrun hn he

theorem create_reserves : s.Reserves s' (some state) := by
  obtain rfl := Except.ok.inj <| he.symm.trans <| createChannel_eq hrun rfl
  refine ⟨fun x => ?_, ?_, fun a x x' hx hx' => ?_⟩
  case refine_1 =>
    by_cases hxs : x = state
    case pos => simp [hxs, grownQueue, SteadyHeap.reserve]
    case neg =>
      rw [setQueue_queues_ne hxs, if_neg fun h => hxs (Option.some.inj h).symm]
      rfl
  case refine_2 =>
    cases hq : s.state2channelQueues state <;>
      simp [setQueue, setStateQueue, grownStateQueue, SteadyHeap.reserve, hq]
  case refine_3 =>
    have hac : a ≠ c := fun h => by simp [h, hn] at hx
    obtain rfl := Option.some.inj <| hx.symm.trans <| (setImpl_impls_ne hac).symm.trans hx'
    exact ⟨rfl, rfl⟩

omit hn in
theorem create_channelsOf_le (hl : c ∉ s.channels) (x : Ptr) :
    (s'.channelsOf x).length ≤ (s.channelsOf x).length + if some state = some x then 1 else 0 := by
  obtain rfl := Except.ok.inj <| he.symm.trans <| createChannel_eq hrun rfl
  have hold : s.channels.filter (fun a => (Function.update s.impls c (some <|
        (ChannelImpl.new name capacity state callback).setProfileData
          (if s.profiler then some [] else none)) a).any fun ch => ch.singleThreadObject = x) =
      s.channelsOf x := by
    refine List.filter_congr fun a ha => ?_
    have hac : a ≠ c := fun hac => hl (hac ▸ ha)
    rw [Function.update_of_ne hac]
  simp only [channelsOf, setQueue, setStateQueue, setImpl, List.filter_append, hold,
    List.length_append, Nat.add_le_add_iff_left]
  by_cases hxs : state = x
  case pos =>
    rw [if_pos (congrArg some hxs)]
    exact List.length_filter_le _ [c]
  case neg =>
    have hst : ((ChannelImpl.new name capacity state callback).setProfileData
      (if s.profiler then some [] else none)).singleThreadObject = state := rfl
    simp [hst, hxs]

theorem Reserved.create (h : s.Reserved) (hl : c ∉ s.channels) : s'.Reserved where
  heaps x := by
    rw [(create_reserves hrun hn he).capacity]
    exact (create_channelsOf_le hrun he hl x).trans <| Nat.add_le_add_right (h.heaps x) _
  queue := by
    have ⟨states, hle, hs⟩ := h.queue
    have hr := create_reserves hrun hn he
    have hknown : ∀ x chq', s'.state2channelQueues x = some chq' → x = state ∨ x ∈ states := by
      intro x chq' hx'
      have hcap := hr.heaps x
      by_cases hxs : x = state
      case pos => exact .inl hxs
      case neg =>
        rw [if_neg fun h => hxs (Option.some.inj h).symm, hx'] at hcap
        have ⟨chq, hx, _⟩ := Option.map_eq_some_iff.mp hcap.symm
        exact .inr <| hs x chq hx
    cases hq : s.state2channelQueues state
    case none =>
      refine ⟨state :: states, ?_, fun x chq' hx' => List.mem_cons.mpr <| hknown x chq' hx'⟩
      simpa [hr.queue, hq] using hle
    case some chq =>
      refine ⟨states, ?_, fun x chq' hx' => ?_⟩
      · simpa [hr.queue, hq] using hle
      · exact (hknown x chq' hx').elim (fun hxs => hxs ▸ hs state chq hq) id
  packets a ch' ha := by
    obtain rfl := Except.ok.inj <| he.symm.trans <| createChannel_eq hrun rfl
    by_cases hac : a = c
    case pos =>
      subst hac
      obtain rfl := Option.some.inj <| setImpl_impls_self.symm.trans ha
      exact Nat.le_max_right ..
    case neg => exact h.packets a ch' <| (setImpl_impls_ne hac).symm.trans ha

end Create

theorem advance_contained {t : Time} {wake : Nat} {x : Client} {x' : Option Client}
    (h : s.advance t wake x = .ok (x', s')) : s.Contained s' := by
  cases advance_effect h
  case took hc _                      => exact .update hc rfl rfl
  case tookNone                       => exact .refl _
  case dropped hn                     => exact getNext_contained hn
  case logged hc                      => exact .update hc rfl rfl
  case acquired hc _                  => exact .update hc rfl rfl
  case filled hc _ _                  => exact .update hc rfl rfl
  case processed hc _                 => exact .update hc rfl rfl
  case pushed hp                      => exact push_contained hp
  case freed hc hg | released hc hg   => exact .giveFree hc rfl rfl hg

end SchedulerImpl

-- The state of the channel that is registered in the step.
def Action.registers : Action → Option Ptr
  | .createChannel _ _ _ state _ => some state
  | _                            => none

namespace System

variable {y y' : System} {a : Action}

-- Neither the queues nor the channels change.
theorem reserves_of_eq (hr : y.sched.Reserved) (hi : y'.sched.impls = y.sched.impls)
    (hch : y'.sched.channels = y.sched.channels)
    (hq : y'.sched.state2channelQueues = y.sched.state2channelQueues)
    (hs : y'.sched.stateQueue = y.sched.stateQueue) :
    y.sched.Reserves y'.sched none ∧ y'.sched.Reserved := by
  have hres := SchedulerImpl.Reserves.of_eq hi hq hs
  have hof := SchedulerImpl.channelsOf_congr hch fun c => by rw [hi]
  exact ⟨hres, hr.of_reserves hres (fun x => (congrArg List.length (hof x)).le) fun _ ch hc =>
    ⟨ch, hi ▸ hc⟩⟩

-- No channel and no state comes or goes.
theorem reserves_of_keys (hi' : y'.Inv) (hr : y.sched.Reserved)
    (hmap : ∀ c, (y'.sched.impls c).map (·.singleThreadObject) =
      (y.sched.impls c).map (·.singleThreadObject))
    (hch : y'.sched.channels = y.sched.channels) (hk : y.sched.Contained y'.sched)
    (hkeys : ∀ x, (y'.sched.state2channelQueues x).isSome =
      (y.sched.state2channelQueues x).isSome) :
    y.sched.Reserves y'.sched none ∧ y'.sched.Reserved := by
  have hof := SchedulerImpl.channelsOf_congr hch hmap
  have hres := hr.reserves hi'.wf hk hof hkeys fun c ch hc => hi'.accounted.size_queue_le hc
  refine ⟨hres, hr.of_reserves hres (fun x => (congrArg List.length (hof x)).le) fun a x ha => ?_⟩
  have hsome := congrArg Option.isSome (hmap a)
  rw [Option.isSome_map, Option.isSome_map, ha] at hsome
  exact Option.isSome_iff_exists.mp hsome.symm

-- One channel changes, and the queues change as far as there is room.
theorem reserves_of_update {c : ChannelId} {ch ch' : ChannelImpl} (hi' : y'.Inv)
    (hr : y.sched.Reserved) (hc : y.sched.impls c = some ch)
    (hst : ch'.singleThreadObject = ch.singleThreadObject)
    (himpls : y'.sched.impls = Function.update y.sched.impls c (some ch'))
    (hch : y'.sched.channels = y.sched.channels) (hk : y.sched.Contained y'.sched)
    (hkeys : ∀ x, (y'.sched.state2channelQueues x).isSome =
      (y.sched.state2channelQueues x).isSome) :
    y.sched.Reserves y'.sched none ∧ y'.sched.Reserved :=
  reserves_of_keys hi' hr
    (SchedulerImpl.map_update (f := (·.singleThreadObject)) hc hst himpls) hch hk hkeys

theorem exists_of_exec_finish {i : Nat} {state : Ptr}
    (hw : y.sched.workers[i]? = some (.finishing state)) (hn : state ≠ nullptr)
    (he : y.exec (.finish i) = .ok y') :
    ∃ s', y.sched.finish state = .ok s' ∧ y'.sched = s'.setWorker i .looping := by
  simp only [exec, hw, if_pos hn] at he
  obtain ⟨s', hs', he⟩ := bind_eq_ok.mp he
  exact ⟨s', hs', congrArg System.sched (Except.ok.inj he).symm⟩

theorem Outcome.reserves (hi : y.Inv) (hi' : y'.Inv) (hg : y.Guard a) (hr : y.sched.Reserved)
    (ho : Outcome y a y') (he : y.exec a = .ok y') :
    y.sched.Reserves y'.sched a.registers ∧ y'.sched.Reserved := by
  cases ho
  case tick | start | spawned | started | stop | notifiedAll | joined | invalid | acquire | entered
    | slept | left | woken | returned => exact reserves_of_eq hr rfl rfl rfl rfl
  case created c name capacity state callback s' hn hcr =>
    obtain ⟨s₁, hs₁, he⟩ := bind_eq_ok.mp he
    obtain rfl : s₁ = s' := congrArg System.sched (Except.ok.inj he)
    have hrun : y.sched.running = false := by rw [hi.phase.running, hg.1]; rfl
    have hl : c ∉ y.sched.channels := fun hm => by
      obtain ⟨_, hx⟩ := (hi.wf.live c).mp hm
      simp [hn] at hx
    exact ⟨SchedulerImpl.create_reserves hrun hn hs₁, hr.create hrun hn hs₁ hl⟩
  case destroyed c ch s' hch hv hd =>
    have himpls := congrArg SchedulerImpl.impls hd.frame
    have hlive (a : ChannelId) (x : ChannelImpl) (ha : s'.impls a = some x) :
        y.sched.impls a = some x := by
      rw [himpls] at ha
      by_cases hac : a = c
      case pos => simp [hac] at ha
      case neg => simpa [hac] using ha
    have hres : y.sched.Reserves s' none := by
      refine ⟨fun x => ?_, congrArg (·.stateQueue.capacity) hd.frame, fun a x x' hx hx' => ?_⟩
      · rw [hd.frame, if_neg nofun]
      · obtain rfl := Option.some.inj <| hx.symm.trans <| hlive a x' hx'
        exact ⟨rfl, rfl⟩
    refine ⟨hres, hr.of_reserves hres (fun x => ?_) fun a x ha => ⟨x, hlive a x ha⟩⟩
    rw [SchedulerImpl.channelsOf, SchedulerImpl.channelsOf, ← List.countP_eq_length_filter,
      ← List.countP_eq_length_filter]
    calc s'.channels.countP fun a => (s'.impls a).any fun ch => ch.singleThreadObject = x
      _ ≤ s'.channels.countP fun a => (y.sched.impls a).any fun ch => ch.singleThreadObject = x := by
        refine List.countP_mono_left fun a _ ha => ?_
        obtain ⟨b, hb, hst⟩ := (Option.any_eq_true ..).mp ha
        exact (Option.any_eq_true ..).mpr ⟨b, hlive a b hb, hst⟩
      _ = (y.sched.channels.erase c).countP _ := hd.channels.countP_eq _
      _ ≤ y.sched.channels.countP _ := List.erase_sublist.countP_le
  case polled c ch ch' packet s' hch hs' hrq hm =>
    refine reserves_of_update hi' hr hch hm.state hrq.impls (by rw [hrq.frame]; rfl)
      (SchedulerImpl.getNext_contained hs') fun x => SchedulerImpl.isSome_of_map (hrq.enabled x)
  case advanced x x' ch ch' wake s' hx hadv =>
    refine reserves_of_update hi' hr hadv.impl hadv.moved.state hadv.requeued.impls
      (by rw [hadv.requeued.frame]; rfl) (SchedulerImpl.advance_contained hadv.exec)
      fun x => SchedulerImpl.isSome_of_map (hadv.requeued.enabled x)
  case took i state c ch p rest q s' hw hnext hf hperm hserve htk hm =>
    have hch : s'.channels = y.sched.channels := by rw [htk.frame]
    refine reserves_of_update hi' hr hnext.impl hm.state htk.impls hch
      (SchedulerImpl.serve_contained hserve) fun x => ?_
    change (s'.state2channelQueues x).isSome = _
    obtain ⟨chq, hq, _⟩ := hnext.enabled
    have hen := congrArg Option.isSome (htk.enabled x)
    by_cases hx : x = state ∧ state ≠ nullptr
    case pos => simpa [hx, hx.1, hq] using hen
    case neg => simpa [hx] using hen
  case executed i t₁ state c p ch hw hch =>
    have hk : y.sched.Contained (y.sched.setImpl c <| ch.log .executeTime (y.now - t₁)) :=
      .update hch rfl rfl
    have hst : (ch.log .executeTime (y.now - t₁)).singleThreadObject = ch.singleThreadObject := rfl
    exact reserves_of_update hi' hr hch hst rfl rfl (hk.setWorker ..) fun _ => rfl
  case finished i state s' hw hn hf =>
    obtain ⟨s₁, hs₁, heq⟩ := exists_of_exec_finish hw hn he
    have hk := (SchedulerImpl.finish_contained hs₁).setWorker i .looping
    have hch : s'.channels = y.sched.channels := by rw [hf.frame]
    refine reserves_of_keys hi' hr (fun c => congrArg _ (congrFun hf.impls c)) hch (heq ▸ hk)
      fun x => ?_
    change (s'.state2channelQueues x).isSome = _
    have hen := congrArg Option.isSome (hf.enabled x)
    by_cases hx : x = state
    case pos => simpa [hx, SchedulerImpl.isSome_of_finish hs₁] using hen
    case neg => simpa [hx] using hen

end System

-- No container holds more than there is room for.
structure SchedulerImpl.Fits (s : SchedulerImpl) : Prop where
  heaps   : ∀ x chq, s.state2channelQueues x = some chq → chq.heap.heap.length ≤ chq.heap.capacity
  queue   : s.stateQueue.heap.length ≤ s.stateQueue.capacity
  packets : ∀ c ch, s.impls c = some ch →
            ch.freePackets.length ≤ ch.capacity ∧ ch.queuedPackets.size ≤ ch.capacity ∧
            ch.capacity ≤ ch.queuedPackets.capacity

variable {y y' : System} {a : Action}

theorem System.reserved (h : machine.Reachable Clean y) : y.sched.Reserved := by
  refine h.induction (P := fun y => y.sched.Reserved) ?_ fun z b z' hz hr hc e => ?_
  case refine_1 =>
    rintro _ ⟨workersNumber, profiler, now, hw, ht, rfl⟩
    exact .new ..
  case refine_2 =>
    have hi := safe.reachable hz
    have ho := hi.outcome_of_step hc e
    exact (ho.reserves hi (safe.of_step hi hc e) e.guard hr e.exec).2

theorem System.Inv.fits (h : y.Inv) (hr : y.sched.Reserved) : y.sched.Fits where
  heaps x chq hx := (h.wf.length_heap_le hx).trans <| SchedulerImpl.subscript_eq hx ▸ hr.heaps x
  queue := by
    have ⟨states, hle, hs⟩ := hr.queue
    exact (h.wf.length_queue_le hs).trans hle
  packets c ch hc :=
    ⟨(Nat.le_add_right ..).trans <| h.accounted.size_free_queue_le hc,
      h.accounted.size_queue_le hc, hr.packets c ch hc⟩

-- Once a channel is registered, no container has to grow for it.
theorem containers_fit (h : machine.Reachable System.Clean y) :
    y.sched.Fits ∧ ∀ a y', machine.Step y a y' → y.Clean a →
      y.sched.Reserves y'.sched a.registers := by
  have hi := safe.reachable h
  have hr := System.reserved h
  refine ⟨hi.fits hr, fun a y' e hc => ?_⟩
  have ho := hi.outcome_of_step hc e
  exact (ho.reserves hi (safe.of_step hi hc e) e.guard hr e.exec).1

theorem containers_fit_twoStates :
    ∃ y : System, y.sched.workers = [.executing 7 2 0, .locking] ∧ y.sched.Fits ∧
      ∀ a y', machine.Step y a y' → y.Clean a → y.sched.Reserves y'.sched a.registers :=
  have ⟨y, hr, hw, _⟩ := reachable_twoStates
  ⟨y, hw, containers_fit hr⟩

end PipeRT
