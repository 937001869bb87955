import PipeRT.System.Service
import PipeRT.Edf

namespace PipeRT

-- A packet of a scheduled channel, as a job of the flat queue.
abbrev Job := Edf.Job (ChannelId × Slot) Ptr Time

namespace SchedulerImpl

def job (ch : ChannelImpl) (c : ChannelId) (p : Slot) : Job where
  id       := (c, p)
  group    := ch.singleThreadObject
  deadline := ch.timestamp p

-- What the three levels of heaps stand for.
def edf (s : SchedulerImpl) : Edf.Queue (ChannelId × Slot) Ptr Time where
  jobs    := {j | ∃ ch, s.impls j.id.1 = some ch ∧ ch.isScheduled = true ∧
              j.id.2 ∈ ch.queuedPackets.heap ∧ j = job ch j.id.1 j.id.2}
  blocked := {state | (s.subscript state).enabled = false}

variable {s s' : SchedulerImpl} {c : ChannelId} {ch ch' : ChannelImpl} {p : Slot}

theorem mem_edf_jobs (hc : s.impls c = some ch) {j : Job} (hj : j.id.1 = c) :
    j ∈ s.edf.jobs ↔
    ch.isScheduled = true ∧ j.id.2 ∈ ch.queuedPackets.heap ∧ j = job ch c j.id.2 := by
  subst hj
  simp [edf, hc]

-- A change of one channel, the timestamps of which stay as they are.
section Update

variable (hc : s.impls c = some ch) (hi : s'.impls = Function.update s.impls c (some ch'))
variable (hs : ch'.isScheduled = ch.isScheduled)
variable (hst : ch'.singleThreadObject = ch.singleThreadObject)
include hc hi hs hst

omit hc in
theorem mem_edf_jobs_update (ht : ∀ a ∈ ch'.queuedPackets.heap, ch'.timestamp a = ch.timestamp a)
    {j : Job} (hj : j.id.1 = c) :
    j ∈ s'.edf.jobs ↔
    ch.isScheduled = true ∧ j.id.2 ∈ ch'.queuedPackets.heap ∧ j = job ch c j.id.2 := by
  have hc' : s'.impls c = some ch' := by simp [hi]
  rw [mem_edf_jobs hc' hj, hs]
  refine and_congr_right fun _ => and_congr_right fun hm => ?_
  rw [job, job, hst, ht _ hm]

omit hc hs hst in
theorem mem_edf_jobs_of_ne {j : Job} (hj : j.id.1 ≠ c) : j ∈ s'.edf.jobs ↔ j ∈ s.edf.jobs := by
  simp [edf, hi, hj]

omit hst in
theorem edf_jobs_polled (hp : ch.isScheduled = false) : s'.edf.jobs = s.edf.jobs := by
  ext j
  by_cases hj : j.id.1 = c
  case pos =>
    have hc' : s'.impls c = some ch' := by simp [hi]
    rw [mem_edf_jobs hc hj, mem_edf_jobs hc' hj, hs]
    simp [hp]
  case neg => exact mem_edf_jobs_of_ne hi hj

theorem edf_jobs_same (hq : ch'.queuedPackets.heap.Perm ch.queuedPackets.heap)
    (ht : ∀ a ∈ ch.queuedPackets.heap, ch'.timestamp a = ch.timestamp a) :
    s'.edf.jobs = s.edf.jobs := by
  ext j
  by_cases hj : j.id.1 = c
  case pos =>
    rw [mem_edf_jobs hc hj, mem_edf_jobs_update hi hs hst (fun a ha => ht a (hq.subset ha)) hj,
      hq.mem_iff]
  case neg => exact mem_edf_jobs_of_ne hi hj

theorem edf_jobs_enter (hp : ch.isScheduled = true)
    (hq : ch'.queuedPackets.heap.Perm (p :: ch.queuedPackets.heap))
    (ht : ∀ a ∈ p :: ch.queuedPackets.heap, ch'.timestamp a = ch.timestamp a) :
    s'.edf.jobs = insert (job ch c p) s.edf.jobs := by
  ext j
  by_cases hj : j.id.1 = c
  case pos =>
    rw [Set.mem_insert_iff, mem_edf_jobs hc hj,
      mem_edf_jobs_update hi hs hst (fun a ha => ht a (hq.subset ha)) hj, hq.mem_iff,
      List.mem_cons]
    constructor
    case mp =>
      rintro ⟨_, hm | hm, he⟩
      · exact .inl (hm ▸ he)
      · exact .inr ⟨hp, hm, he⟩
    case mpr =>
      rintro (he | ⟨_, hm, he⟩)
      · subst he
        exact ⟨hp, .inl rfl, rfl⟩
      · exact ⟨hp, .inr hm, he⟩
  case neg =>
    have hne : j ≠ job ch c p := fun he => hj (he ▸ rfl)
    rw [Set.mem_insert_iff, or_iff_right hne]
    exact mem_edf_jobs_of_ne hi hj

theorem edf_jobs_leave (hp : ch.isScheduled = true) (hnd : ch.queuedPackets.heap.Nodup)
    (hq : (p :: ch'.queuedPackets.heap).Perm ch.queuedPackets.heap)
    (ht : ∀ a ∈ ch.queuedPackets.heap, ch'.timestamp a = ch.timestamp a) :
    s'.edf.jobs = s.edf.jobs \ {job ch c p} := by
  have hnp := (List.nodup_cons.mp <| hq.nodup_iff.mpr hnd).1
  ext j
  by_cases hj : j.id.1 = c
  case pos =>
    have ht' : ∀ a ∈ ch'.queuedPackets.heap, ch'.timestamp a = ch.timestamp a := fun a ha =>
      ht a <| hq.subset <| List.mem_cons_of_mem _ ha
    rw [Set.mem_sdiff, Set.mem_singleton_iff, mem_edf_jobs hc hj,
      mem_edf_jobs_update hi hs hst ht' hj, ← hq.mem_iff, List.mem_cons]
    constructor
    case mp =>
      rintro ⟨_, hm, he⟩
      refine ⟨⟨hp, .inr hm, he⟩, fun hjp => hnp ?_⟩
      rwa [hjp] at hm
    case mpr =>
      rintro ⟨⟨_, hm | hm, he⟩, hne⟩
      · exact absurd (hm ▸ he) hne
      · exact ⟨hp, hm, he⟩
  case neg =>
    have hne : j ≠ job ch c p := fun he => hj (he ▸ rfl)
    rw [Set.mem_sdiff, Set.mem_singleton_iff, and_iff_left hne]
    exact mem_edf_jobs_of_ne hi hj

end Update

abbrev Event := Edf.Event (ChannelId × Slot) Ptr Time

-- Packets of polled channels are not jobs.
def jobEvent (s : SchedulerImpl) (c : ChannelId) (event : Job → Event) (packet : Option Slot) : Event :=
  match s.impls c, packet with
  | some ch, some p => if ch.isScheduled then event (job ch c p) else .idle
  | _, _            => .idle

def moveEvent (s : SchedulerImpl) (c : ChannelId) (x x' : Option Client) : Event :=
  match x.bind Client.enters with
  | some p => s.jobEvent c .arrive (some p)
  | none   => s.jobEvent c .discard (x'.bind Client.leaves)

variable {x x' : Option Client} {t : Time} {wake : Option Nat}

theorem edf_blocked_eq (he : ∀ x, (s'.subscript x).enabled = (s.subscript x).enabled) :
    s'.edf.blocked = s.edf.blocked := by
  simp only [edf, he]

theorem jobEvent_some (hc : s.impls c = some ch) (event : Job → Event) :
    s.jobEvent c event (some p) = if ch.isScheduled then event (job ch c p) else .idle := by
  simp [jobEvent, hc]

theorem jobEvent_none (event : Job → Event) : s.jobEvent c event none = .idle := by
  cases hc : s.impls c <;> simp [jobEvent, hc]

theorem edf_moved (h : s.WF) (h' : s'.WF) (hc : s.impls c = some ch)
    (hr : Requeued (s.setImpl c ch') s' wake) (hm : Moved c ch ch' x x' t)
    (hx : x.bind Client.enters = none ∨ x'.bind Client.leaves = none) :
    Edf.Queue.Step nullptr s.edf (s.moveEvent c x x') s'.edf := by
  have hi : s'.impls = Function.update s.impls c (some ch') := hr.impls
  have hb : s'.edf.blocked = s.edf.blocked := edf_blocked_eq hr.subscript_enabled
  have hnd := (h.sorted c ch hc).nodup
  have hq := hm.queue
  have ht := hm.timestamps
  simp only [Client.slots] at hq ht
  rw [moveEvent]
  cases hen : x.bind Client.enters
  case some p =>
    have hle : x'.bind Client.leaves = none := hx.resolve_left (by simp [hen])
    simp only [hen, hle, Option.toList_some, Option.toList_none, List.append_nil] at hq ht
    have hq := hq.trans (List.perm_append_singleton p _)
    simp only [jobEvent_some hc]
    cases hs : ch.isScheduled
    case false =>
      exact .idle_of_eq <| Edf.Queue.ext (edf_jobs_polled hc hi hm.isScheduled hs) hb
    case true =>
      refine .arrive_of_eq (edf_jobs_enter hc hi hm.isScheduled hm.state hs hq ?_) hb ?_
      · exact fun a ha => ht a <| (List.perm_append_singleton p _).mem_iff.mpr ha
      · have hnd' := hq.nodup_iff.mp (h'.sorted c ch' (by simp [hi])).nodup
        rw [mem_edf_jobs hc rfl]
        exact fun hj => (List.nodup_cons.mp hnd').1 hj.2.1
  case none =>
    simp only [hen, Option.toList_none, List.append_nil] at hq ht
    cases hle : x'.bind Client.leaves
    case none =>
      simp only [hle, Option.toList_none, List.append_nil] at hq
      simp only [jobEvent_none]
      exact .idle_of_eq <| Edf.Queue.ext (edf_jobs_same hc hi hm.isScheduled hm.state hq ht) hb
    case some p =>
      simp only [hle, Option.toList_some] at hq
      have hq := (List.perm_append_singleton p _).symm.trans hq
      simp only [jobEvent_some hc]
      cases hs : ch.isScheduled
      case false =>
        exact .idle_of_eq <| Edf.Queue.ext (edf_jobs_polled hc hi hm.isScheduled hs) hb
      case true =>
        refine .discard_of_eq (edf_jobs_leave hc hi hm.isScheduled hm.state hs hnd hq ht) hb ?_
        rw [mem_edf_jobs hc rfl]
        exact ⟨hs, hq.mem_iff.mp (List.mem_cons_self ..), rfl⟩

theorem mem_edf_blocked {state : Ptr} :
    state ∈ s.edf.blocked ↔ (s.subscript state).enabled = false :=
  .rfl

theorem WF.enabled_of_free (h : s.WF) (hc : s.impls c = some ch)
    (hf : ch.singleThreadObject ∉ s.edf.blocked) : s.Enabled ch.singleThreadObject := by
  have ⟨chq, hq⟩ := h.registered c ch hc
  rw [mem_edf_blocked, subscript_eq hq] at hf
  exact ⟨chq, hq, by simpa using hf⟩

theorem edf_earliest {state : Ptr} (h : s.WF) (hn : s.Next state c ch p) :
    s.edf.Earliest (job ch c p) where
  mem   := (mem_edf_jobs hn.impl rfl).mpr ⟨hn.scheduled, List.mem_of_head? hn.packet, rfl⟩
  free  := by
    rw [mem_edf_blocked, job, hn.state_eq, hn.enabled.subscript]
    exact Bool.true_eq_false_eq_False
  least := by
    rintro j ⟨ch', hc', hs', hp', he⟩ hf
    rw [he] at hf ⊢
    exact hn.least _ _ _ hc' hs' (h.enabled_of_free hc' hf) hp'

theorem edf_taken {state : Ptr} {rest : List Slot} {q : SteadyHeap Slot} (h : s.WF)
    (hn : s.Next state c ch p) (hf : ch.queuedPackets.heap = p :: rest) (hp : q.heap.Perm rest)
    (ht : s.Taken s' state c (ch.popped q p false t)) :
    Edf.Queue.Step nullptr s.edf (.take (job ch c p)) s'.edf := by
  refine .take_of_eq ?_ (fun x => ?_) (edf_earliest h hn)
  case refine_1 =>
    refine edf_jobs_leave hn.impl ht.impls (by simp) (by simp) hn.scheduled
      (h.sorted c ch hn.impl).nodup ?_ (by simp)
    rw [ChannelImpl.popped_queuedPackets, hf]
    exact hp.cons p
  case refine_2 =>
    rw [mem_edf_blocked, mem_edf_blocked, ht.subscript_enabled, job, hn.state_eq]
    by_cases hx : x = state <;> by_cases hs : state = nullptr <;> simp [hx, hs]

theorem edf_finished {state : Ptr} (hf : s.Finished s' state)
    (hen : (s.subscript state).enabled = false) :
    Edf.Queue.Step nullptr s.edf (.finish state) s'.edf := by
  refine .finish_of_eq (by simp only [edf, hf.impls]) (fun x => ?_) hen
  rw [mem_edf_blocked, mem_edf_blocked, hf.subscript_enabled]
  by_cases hx : x = state <;> simp [hx]

theorem edf_created (hn : s.impls c = none) (hq : ch.queuedPackets.heap = [])
    (hcr : s.Created s' c ch) : s'.edf = s.edf := by
  have hi := congrArg impls hcr.frame
  refine Edf.Queue.ext (Set.ext fun j => ?_) (edf_blocked_eq hcr.enabled)
  by_cases hj : j.id.1 = c
  case pos => simp [edf, hi, hj, hn, hq]
  case neg => exact mem_edf_jobs_of_ne hi hj

theorem edf_destroyed (hc : s.impls c = some ch) (hv : ch.view = none)
    (hd : s.Destroyed s' c) : s'.edf = s.edf := by
  have hi := congrArg impls hd.frame
  have hsub (x : Ptr) : s'.subscript x = s.subscript x := by rw [hd.frame]; rfl
  refine Edf.Queue.ext (Set.ext fun j => ?_) (edf_blocked_eq fun x => by rw [hsub])
  by_cases hj : j.id.1 = c
  case neg => simp [edf, hi, hj]
  case pos =>
    rw [mem_edf_jobs hc hj]
    have hno : ¬(ch.isScheduled = true ∧ j.id.2 ∈ ch.queuedPackets.heap) := fun ⟨hs, hp⟩ => by
      have ⟨top, htop⟩ := exists_front (List.ne_nil_of_mem hp)
      simp [channel_view_of_front hs htop] at hv
    simp only [edf, hi, hj, Set.mem_ofPred_eq, Function.update_self]
    exact iff_of_false nofun fun h => hno ⟨h.1, h.2.1⟩

end SchedulerImpl

namespace System

-- What a step means to the flat queue.
def event (y : System) : Action → SchedulerImpl.Event
  | .advance x wake =>
    match y.sched.advance y.now wake x with
    | .ok (x', _) => y.sched.moveEvent x.channel (some x) x'
    | .error _    => .idle
  | .poll c =>
    match y.sched.getNext c false y.now with
    | .ok (packet, _) => y.sched.moveEvent c none (packet.map (.processing c))
    | .error _        => .idle
  | .serve i =>
    match y.sched.serve i y.now with
    | .ok s =>
      match s.workers[i]? with
      | some (.executing _ c p) => y.sched.jobEvent c .take (some p)
      | _                       => .idle
    | .error _ => .idle
  | .finish i =>
    match y.sched.workers[i]? with
    | some (.finishing state) => if state = nullptr then .idle else .finish state
    | _                       => .idle
  | _ => .idle

variable {y y' : System} {a : Action}

theorem enters_or_leaves {s s' : SchedulerImpl} {t : Time} {wake : Nat} {x : Client}
    {x' : Option Client} (h : s.advance t wake x = .ok (x', s')) :
    (some x).bind Client.enters = none ∨ x'.bind Client.leaves = none := by
  cases SchedulerImpl.advance_effect h
  case pushed => exact .inr rfl
  all_goals exact .inl rfl

theorem event_serve {i : Nat} {s' : SchedulerImpl} {state : Ptr} {c : ChannelId} {ch : ChannelImpl}
    {p : Slot} {w : Worker} (hw : s'.workers[i]? = some w)
    (hserve : y.sched.serve i y.now = .ok (s'.setWorker i (.executing state c p)))
    (hc : y.sched.impls c = some ch) (hs : ch.isScheduled = true) :
    y.event (.serve i) = .take (SchedulerImpl.job ch c p) := by
  have hi : (s'.setWorker i (.executing state c p)).workers[i]? = some (.executing state c p) :=
    SchedulerImpl.getElem?_setWorker hw
  simp [event, hserve, hi, SchedulerImpl.jobEvent_some hc, hs]

theorem edf_step (hi : y.Inv) (hi' : y'.Inv) (ho : Outcome y a y') :
    Edf.Queue.Step nullptr y.sched.edf (y.event a) y'.sched.edf := by
  cases ho
  case tick | started | start | spawned | stop | notifiedAll | joined | invalid | acquire | entered
    | woken => exact .idle
  case created hn hcr => exact .idle_of_eq <| SchedulerImpl.edf_created hn rfl hcr
  case destroyed hch hv hd => exact .idle_of_eq <| SchedulerImpl.edf_destroyed hch hv hd
  case polled c ch ch' packet s' hch hs' hr hm =>
    simp only [event, hs']
    exact SchedulerImpl.edf_moved hi.wf hi'.wf hch hr hm (.inl rfl)
  case advanced x x' ch ch' wake s' hx hadv =>
    simp only [event, hadv.exec]
    exact SchedulerImpl.edf_moved hi.wf hi'.wf hadv.impl hadv.requeued hadv.moved
      (enters_or_leaves hadv.exec)
  case slept i hw hk hq =>
    obtain ⟨_, hw, _⟩ := SchedulerImpl.exists_served hw
    have hs : (y.sched.setWorker i .waiting).workers[i]? = some .waiting :=
      SchedulerImpl.getElem?_setWorker hw
    have he : y.event (.serve i) = .idle := by simp [event, SchedulerImpl.serve, hk, hq, hs]
    exact he ▸ .idle
  case left i hw hk hq =>
    obtain ⟨_, hw, _⟩ := SchedulerImpl.exists_served hw
    have hs : (y.sched.setWorker i .looping).workers[i]? = some .looping :=
      SchedulerImpl.getElem?_setWorker hw
    have he : y.event (.serve i) = .idle := by simp [event, SchedulerImpl.serve, hk, hq, hs]
    exact he ▸ .idle
  case took i state c ch p rest q s' hw hnext hf hperm hserve htk hm =>
    obtain ⟨_, hw, _⟩ := SchedulerImpl.exists_served hw
    have he : y.event (.serve i) = .take (SchedulerImpl.job ch c p) :=
      event_serve (htk.workers ▸ hw) hserve hnext.impl hnext.scheduled
    rw [he]
    change Edf.Queue.Step nullptr y.sched.edf _ s'.edf
    exact SchedulerImpl.edf_taken hi.wf hnext hf hperm htk
  case executed i t₁ state c p ch hw hch =>
    refine .idle_of_eq <| Edf.Queue.ext ?_ rfl
    exact SchedulerImpl.edf_jobs_same hch rfl rfl rfl (.refl _) fun _ _ => rfl
  case returned i hw =>
    simp only [event, hw, if_true]
    exact .idle
  case finished i state s' hw hn hf =>
    simp only [event, hw, if_neg hn]
    change Edf.Queue.Step nullptr y.sched.edf _ s'.edf
    exact SchedulerImpl.edf_finished hf <| hi.staffed.disabled hn hw

end System

-- What a worker takes, in terms of the channels.
structure TakesEarliest (y : System) (a : Action) (state : Ptr) (c : ChannelId) (p : Slot) : Prop where
  exists_impl : ∃ ch, y.sched.impls c = some ch ∧ ch.isScheduled = true ∧
                ch.singleThreadObject = state ∧ (y.sched.subscript state).enabled = true ∧
                p ∈ ch.queuedPackets.heap ∧ y.event a = .take (SchedulerImpl.job ch c p)
  least       : ∀ c' ch' p', y.sched.impls c' = some ch' → ch'.isScheduled = true →
                (y.sched.subscript ch'.singleThreadObject).enabled = true →
                p' ∈ ch'.queuedPackets.heap → y.sched.timestamp c p ≤ ch'.timestamp p'

theorem takesEarliest {y y' : System} {i : Nat} {state : Ptr} {c : ChannelId} {p : Slot} (hi : y.Inv)
    (ho : System.Outcome y (.serve i) y')
    (hw : y'.sched.workers[i]? = some (.executing state c p)) :
    TakesEarliest y (.serve i) state c p := by
  generalize ha : Action.serve i = a at ho
  cases ho <;> try contradiction
  case slept i' hw' _ _ =>
    obtain rfl := Action.serve.inj ha
    obtain ⟨_, hw', _⟩ := SchedulerImpl.exists_served hw'
    cases (SchedulerImpl.getElem?_setWorker hw').symm.trans hw
  case left i' hw' _ _ =>
    obtain rfl := Action.serve.inj ha
    obtain ⟨_, hw', _⟩ := SchedulerImpl.exists_served hw'
    cases (SchedulerImpl.getElem?_setWorker hw').symm.trans hw
  case took i' state' c' ch p' rest q s' hw' hnext hf hperm hserve htk hm =>
    obtain rfl := Action.serve.inj ha
    obtain ⟨_, hw', _⟩ := SchedulerImpl.exists_served hw'
    have hwi := htk.workers ▸ hw'
    obtain ⟨rfl, rfl, rfl⟩ := Worker.executing.inj <| Option.some.inj <|
      (SchedulerImpl.getElem?_setWorker hwi).symm.trans hw
    refine ⟨⟨ch, hnext.impl, hnext.scheduled, hnext.state_eq, ?_, List.mem_of_head? hnext.packet,
      System.event_serve hwi hserve hnext.impl hnext.scheduled⟩, ?_⟩
    · exact hnext.enabled.subscript
    · intro c₁ ch₁ p₁ hc₁ hs₁ hen hp₁
      rw [SchedulerImpl.timestamp, hnext.impl]
      refine hnext.least _ _ _ hc₁ hs₁ (hi.wf.enabled_of_free hc₁ ?_) hp₁
      simp [SchedulerImpl.mem_edf_blocked, hen]

-- What the workers take is what they would take from a flat queue.
theorem refines_edf {y : System} (h : machine.Reachable System.Clean y) :
    (∃ events, Execution (Edf.Queue.Step nullptr) .empty events y.sched.edf) ∧
    ∀ a y', y.Clean a → machine.Step y a y' →
      Edf.Queue.Step nullptr y.sched.edf (y.event a) y'.sched.edf ∧
      ∀ i state c p, a = .serve i → y'.sched.workers[i]? = some (.executing state c p) →
        TakesEarliest y a state c p := by
  have hstep {y : System} (hr : machine.Reachable System.Clean y) {a : Action} {y' : System}
      (hc : y.Clean a) (e : machine.Step y a y') :
      Edf.Queue.Step nullptr y.sched.edf (y.event a) y'.sched.edf :=
    System.edf_step (safe.reachable hr) (safe.reachable <| hr.step hc e) <|
      (safe.reachable hr).outcome_of_step hc e
  refine ⟨?_, fun a y' hc e => ⟨hstep h hc e, ?_⟩⟩
  case refine_1 =>
    have ⟨s₀, as, hi, r⟩ := h
    have hempty : s₀.sched.edf = .empty := by
      obtain ⟨_, _, _, _, _, rfl⟩ := hi
      exact Edf.Queue.ext (Set.eq_empty_iff_forall_notMem.mpr fun _ ⟨_, hc, _⟩ => nomatch hc)
        (Set.eq_empty_iff_forall_notMem.mpr fun _ he => nomatch he)
    rw [← hempty]
    exact r.simulate (P := machine.Reachable System.Clean) (f := fun y => y.sched.edf)
      (fun _ _ _ hr e => hr.step e.1 e.2) (fun _ _ _ hr e => ⟨_, hstep hr e.1 e.2⟩) ⟨s₀, [], hi, .refl⟩
  case refine_2 =>
    rintro i state c p rfl hw
    exact takesEarliest (safe.reachable h) ((safe.reachable h).outcome_of_step hc e) hw

theorem refines_edf_twoStates :
    ∃ y : System, y.sched.workers = [.executing 7 2 0, .locking] ∧
      (∃ events, Execution (Edf.Queue.Step nullptr) .empty events y.sched.edf) ∧
      ∀ a y', y.Clean a → machine.Step y a y' →
        Edf.Queue.Step nullptr y.sched.edf (y.event a) y'.sched.edf ∧
        ∀ i state c p, a = .serve i → y'.sched.workers[i]? = some (.executing state c p) →
          TakesEarliest y a state c p :=
  have ⟨y, hr, hw, _⟩ := reachable_twoStates
  ⟨y, hw, refines_edf hr⟩

end PipeRT
