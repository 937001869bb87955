import PipeRT.System.Clients

open Heap

namespace PipeRT

-- A change of a channel that its packet queue does not notice.
structure Quiet (ch ch' : ChannelImpl) : Prop where
  queue       : ch'.queuedPackets = ch.queuedPackets
  timestamps  : ∀ p ∈ ch.queuedPackets.heap, ch'.timestamp p = ch.timestamp p
  capacity    : ch'.capacity = ch.capacity
  isScheduled : ch'.isScheduled = ch.isScheduled
  state       : ch'.singleThreadObject = ch.singleThreadObject
  profile     : ch'.profileData.isSome = ch.profileData.isSome

variable {s : SchedulerImpl} {c : ChannelId} {ch ch' : ChannelImpl} {x x' : Option Client}
variable {clients : List Client} {t : Time}

theorem Quiet.log (type : EventType) (value : Int) : Quiet ch (ch.log type value) :=
  ⟨rfl, fun _ _ => rfl, rfl, rfl, rfl, by simp⟩

theorem Quiet.trans {ch'' : ChannelImpl} (h : Quiet ch ch') (h' : Quiet ch' ch'') : Quiet ch ch'' where
  queue            := h'.queue.trans h.queue
  timestamps p hp  := (h'.timestamps p (h.queue ▸ hp)).trans (h.timestamps p hp)
  capacity         := h'.capacity.trans h.capacity
  isScheduled      := h'.isScheduled.trans h.isScheduled
  state            := h'.state.trans h.state
  profile          := h'.profile.trans h.profile

theorem SchedulerImpl.WF.quiet (h : s.WF) (hc : s.impls c = some ch) (hq : Quiet ch ch') :
    (s.setImpl c ch').WF :=
  h.setImpl hc ((h.sorted c ch hc).congr hq.queue hq.timestamps) hq.state (hq.profile ▸ id) <|
    view_congr hq.isScheduled hq.state hq.queue hq.timestamps

theorem Moved.of_quiet (hq : Quiet ch ch') (ht : ∀ p ∈ ch.queuedPackets.heap, ch.timestamp p ≤ t)
    (channel : ∀ a ∈ x, a.channel = c) (channel' : ∀ a ∈ x', a.channel = c)
    (enters : Client.slots Client.enters x = []) (leaves : Client.slots Client.leaves x' = [])
    (slots : (ch'.freePackets ++ Client.slots Client.packet? x').Perm
      (ch.freePackets ++ Client.slots Client.packet? x))
    (others : ∀ p, p ∉ Client.slots Client.packet? x →
      ch'.timestamp p = ch.timestamp p ∧ ch'.opTimestamp p = ch.opTimestamp p)
    (timely : ∀ a ∈ x', a.Timely ch' t)
    (lifetimes : (∀ a ∈ x, a.isDropped = false) → ∀ p,
      ch'.constructed p + ch.destructed p + (Client.slots Client.alive x).count p =
      ch.constructed p + ch'.destructed p + (Client.slots Client.alive x').count p) :
    Moved c ch ch' x x' t where
  capacity      := hq.capacity
  isScheduled   := hq.isScheduled
  state         := hq.state
  channel       := channel
  channel'      := channel'
  slots         := by
    rw [hq.queue]
    refine (List.perm_append_comm.append_right _).trans <| .trans ?_ <|
      (List.perm_append_comm.append_right _)
    rw [List.append_assoc, List.append_assoc]
    exact slots.append_left _
  queue         := by rw [hq.queue, enters, leaves]
  timestamps    := by simpa [enters] using hq.timestamps
  times p hp    := by
    rw [hq.queue] at hp
    exact hq.timestamps p hp ▸ ht p hp
  others p _ hp := others p hp
  timely        := timely
  drops a ha hd := by
    obtain rfl := Option.mem_def.mp ha
    have : a.leaves = none := by simpa using leaves
    simp [Client.isDropped_eq_false this] at hd
  lifetimes h p := by
    have := lifetimes h p
    rw [hq.queue, List.count_append, List.count_append]
    omega

theorem Moved.log (type : EventType) (value : Int)
    (ht : ∀ p ∈ ch.queuedPackets.heap, ch.timestamp p ≤ t) :
    Moved c ch (ch.log type value) none none t :=
  .of_quiet (.log type value) ht nofun nofun rfl rfl (.refl _) (fun _ _ => ⟨rfl, rfl⟩) nofun
    fun _ _ => rfl

theorem ChannelImpl.popped_opTimestamp {q : SteadyHeap Slot} {p p' : Slot} {droppingPacket : Bool}
    (hp : p' ≠ p) : (ch.popped q p droppingPacket t).opTimestamp p' = ch.opTimestamp p' := by
  cases droppingPacket
  case true  => rfl
  case false => simp [popped, stamp_opTimestamp, hp]; rfl

-- A packet that leaves the queue gets into the hands of the client `a`.
theorem Moved.popped {q : SteadyHeap Slot} {p : Slot} {rest : List Slot} {droppingPacket : Bool}
    {a : Client} (hf : ch.queuedPackets.heap = p :: rest) (hperm : q.heap.Perm rest)
    (ht : ∀ p ∈ ch.queuedPackets.heap, ch.timestamp p ≤ t) (channel : ∀ a ∈ x, a.channel = c)
    (packet : Client.slots Client.packet? x = []) (enters : Client.slots Client.enters x = [])
    (alive : Client.slots Client.alive x = []) (channel' : a.channel = c)
    (packet' : a.packet? = some p) (leaves : a.leaves = some p) (alive' : a.alive = some p)
    (timely : a.Timely (ch.popped q p droppingPacket t) t)
    (drops : a.isDropped = true → ∃ timestamp, x = some (.acquiring c timestamp .dropping)) :
    Moved c ch (ch.popped q p droppingPacket t) x (some a) t := by
  have hqp : (q.heap ++ [p]).Perm ch.queuedPackets.heap :=
    hf ▸ (List.perm_append_singleton p q.heap).trans (hperm.cons p)
  have hsub : ∀ p' ∈ q.heap, p' ∈ ch.queuedPackets.heap := fun p' hp' =>
    hqp.mem_iff.mp <| List.mem_append_left _ hp'
  refine ⟨by simp, by simp, by simp, channel, by simpa using channel', ?_, ?_, by simp, ?_,
    fun p' hp' _ => ⟨by simp, ?_⟩, by simpa using timely, by simpa using drops, fun _ p' => ?_⟩
  case refine_1 =>
    simp only [ChannelImpl.popped_freePackets, ChannelImpl.popped_queuedPackets, packet,
      Client.slots_some, packet', Option.toList_some, List.append_nil]
    rw [List.append_assoc]
    exact hqp.append_left _
  case refine_2 => simpa [enters, leaves] using hqp
  case refine_3 => simpa using fun p' hp' => ht p' (hsub p' hp')
  case refine_4 =>
    have hne : p' ≠ p := fun h => hp' <| by simp [hf, h]
    exact ChannelImpl.popped_opTimestamp hne
  case refine_5 => simp [alive, alive', hqp.count_eq]

-- A packet that is retrieved gets a stub.
theorem Moved.retrieved {q : SteadyHeap Slot} {p : Slot} {rest : List Slot}
    (hf : ch.queuedPackets.heap = p :: rest) (hperm : q.heap.Perm rest)
    (ht : ∀ p ∈ ch.queuedPackets.heap, ch.timestamp p ≤ t) :
    Moved c ch (ch.popped q p false t) none (some (.processing c p)) t := by
  refine .popped hf hperm ht nofun rfl rfl rfl rfl rfl rfl rfl ?_ nofun
  simp [Client.Timely, ChannelImpl.popped, ChannelImpl.stamp_opTimestamp]

namespace SchedulerImpl

theorem setImpl_self (hc : s.impls c = some ch) : s.setImpl c ch = s := by
  rw [setImpl, ← hc, Function.update_eq_self]

-- What a step of a client that does not fail does.
inductive AdvanceEffect (s : SchedulerImpl) (t : Time) (wake : Nat) :
    Client → Option Client → SchedulerImpl → Prop
  | took {c timestamp i ch p} : s.impls c = some ch → ch.freePackets.getLast? = some p →
    AdvanceEffect s t wake (.acquiring c timestamp (.round i))
      (some <| .acquiring c timestamp (.acquired p))
      (s.setImpl c { ch with freePackets := ch.freePackets.dropLast })
  | tookNone {c timestamp i ch} : s.impls c = some ch → ch.freePackets = [] →
    AdvanceEffect s t wake (.acquiring c timestamp (.round i))
      (if i + 1 < 2 then some (.acquiring c timestamp .dropping) else none) s
  | dropped {c timestamp packet s'} : s.getNext c true t = .ok (packet, s') →
    AdvanceEffect s t wake (.acquiring c timestamp .dropping)
      (packet.map fun p => .acquiring c timestamp (.dropped p)) s'
  | freed {c timestamp p ch ch'} : s.impls c = some ch → ch.giveFree p = .ok ch' →
    AdvanceEffect s t wake (.acquiring c timestamp (.dropped p))
      (some <| .acquiring c timestamp .logging) (s.setImpl c ch')
  | logged {c timestamp ch} : s.impls c = some ch →
    AdvanceEffect s t wake (.acquiring c timestamp .logging)
      (some <| .acquiring c timestamp (.round 1)) (s.setImpl c <| ch.log .droppedPacket 1)
  | acquired {c timestamp p ch} : s.impls c = some ch → p < ch.capacity →
    AdvanceEffect s t wake (.acquiring c timestamp (.acquired p)) (some <| .filling c p)
      (s.setImpl c <| (ch.stamp p t).construct p timestamp)
  | filled {c p ch} : s.impls c = some ch → ch.timestamp p ≤ t → ch.opTimestamp p ≤ t →
    AdvanceEffect s t wake (.filling c p) (some <| .pushing c p)
      (s.setImpl c <| (ch.log .pushed (t - ch.timestamp p)).log .fillTime (t - ch.opTimestamp p))
  | pushed {c p s'} : s.push c p wake = .ok s' → AdvanceEffect s t wake (.pushing c p) none s'
  | processed {c p ch} : s.impls c = some ch → ch.opTimestamp p ≤ t →
    AdvanceEffect s t wake (.processing c p) (some <| .releasing c p)
      (s.setImpl c <| (ch.destruct p).log .readTime (t - ch.opTimestamp p))
  | released {c p ch ch'} : s.impls c = some ch → ch.giveFree p = .ok ch' →
    AdvanceEffect s t wake (.releasing c p) none (s.setImpl c ch')

theorem advance_effect {wake : Nat} {x : Client} {s' : SchedulerImpl}
    (h : s.advance t wake x = .ok (x', s')) : AdvanceEffect s t wake x x' s' := by
  cases x
  case pushing c p =>
    obtain ⟨s₁, hp, h⟩ := bind_eq_ok.mp h
    obtain ⟨rfl, rfl⟩ := Prod.mk.inj (Except.ok.inj h)
    exact .pushed hp
  case releasing c p =>
    obtain ⟨ch, hd, h⟩ := bind_eq_ok.mp h
    obtain ⟨ch', hg, h⟩ := bind_eq_ok.mp h
    obtain ⟨rfl, rfl⟩ := Prod.mk.inj (Except.ok.inj h)
    exact .released (impl_of_deref hd) hg
  case processing c p =>
    obtain ⟨ch, hd, h⟩ := bind_eq_ok.mp h
    obtain ⟨_, ht, h⟩ := bind_eq_ok.mp h
    obtain ⟨rfl, rfl⟩ := Prod.mk.inj (Except.ok.inj h)
    exact .processed (impl_of_deref hd) (Int.sub_nonneg.mp (of_check ht))
  case filling c p =>
    obtain ⟨ch, hd, h⟩ := bind_eq_ok.mp h
    obtain ⟨_, ht, h⟩ := bind_eq_ok.mp h
    obtain ⟨_, hop, h⟩ := bind_eq_ok.mp h
    obtain ⟨rfl, rfl⟩ := Prod.mk.inj (Except.ok.inj h)
    exact .filled (impl_of_deref hd) (Int.sub_nonneg.mp (of_check ht)) (Int.sub_nonneg.mp (of_check hop))
  case acquiring c timestamp stage =>
    cases stage
    case round i =>
      obtain ⟨ch, hd, h⟩ := bind_eq_ok.mp h
      cases hf : ch.freePackets.getLast?
      case none =>
        simp only [ChannelImpl.takeFree, hf] at h
        obtain ⟨rfl, rfl⟩ := Prod.mk.inj (Except.ok.inj h)
        exact .tookNone (impl_of_deref hd) (List.getLast?_eq_none_iff.mp hf)
      case some p =>
        simp only [ChannelImpl.takeFree, hf] at h
        obtain ⟨rfl, rfl⟩ := Prod.mk.inj (Except.ok.inj h)
        exact .took (impl_of_deref hd) hf
    case dropping =>
      obtain ⟨⟨packet, s₁⟩, hn, h⟩ := bind_eq_ok.mp h
      obtain ⟨rfl, rfl⟩ := Prod.mk.inj (Except.ok.inj h)
      exact .dropped hn
    case dropped p =>
      obtain ⟨ch, hd, h⟩ := bind_eq_ok.mp h
      obtain ⟨ch', hg, h⟩ := bind_eq_ok.mp h
      obtain ⟨rfl, rfl⟩ := Prod.mk.inj (Except.ok.inj h)
      exact .freed (impl_of_deref hd) hg
    case logging =>
      obtain ⟨ch, hd, h⟩ := bind_eq_ok.mp h
      obtain ⟨rfl, rfl⟩ := Prod.mk.inj (Except.ok.inj h)
      exact .logged (impl_of_deref hd)
    case acquired p =>
      obtain ⟨ch, hd, h⟩ := bind_eq_ok.mp h
      obtain ⟨_, hlt, h⟩ := bind_eq_ok.mp h
      obtain ⟨rfl, rfl⟩ := Prod.mk.inj (Except.ok.inj h)
      exact .acquired (impl_of_deref hd) (of_check hlt)

-- What `advance` has to do for a client.
structure Advances (s : SchedulerImpl) (t : Time) (wake : Nat) (x : Client) (x' : Option Client)
    (ch ch' : ChannelImpl) (s' : SchedulerImpl) : Prop where
  impl     : s.impls x.channel = some ch
  exec     : s.advance t wake x = .ok (x', s')
  wf       : s'.WF
  requeued : Requeued (s.setImpl x.channel ch') s' (some wake)
  moved    : Moved x.channel ch ch' (some x) x' t

theorem Advances.impl' {x : Client} {wake : Nat} {s' : SchedulerImpl}
    (hadv : s.Advances t wake x x' ch ch' s') : s'.impls x.channel = some ch' :=
  hadv.requeued.impls ▸ setImpl_impls_self

-- A packet is taken from the queue unless it is empty.
theorem getNext_spec (h : s.WF) (hacc : Accounted s.impls clients t) (hc : s.impls c = some ch)
    (droppingPacket : Bool) :
    ch.queuedPackets.heap = [] ∧ s.getNext c droppingPacket t = .ok (none, s) ∨
    ∃ p rest q s', ch.queuedPackets.heap = p :: rest ∧ q.heap.Perm rest ∧
      s.getNext c droppingPacket t = .ok (some p, s') ∧ s'.WF ∧
      Requeued (s.setImpl c (ch.popped q p droppingPacket t)) s' none := by
  cases hf : ch.queuedPackets.heap
  case nil => exact .inl ⟨rfl, by simp [getNext, deref_eq hc, hf]⟩
  case cons p rest =>
    have hp := hacc.times c ch hc p (by simp [hf])
    have ⟨s', q, hs', hwf, hperm, hr⟩ :=
      popNext_spec h hc (hacc.size_queue_le hc) hf hp droppingPacket
    exact .inr ⟨p, rest, q, s', rfl, hperm, by simp [getNext, deref_eq hc, hf, hs'], hwf, hr⟩

theorem Advances.of_quiet {x : Client} {wake : Nat} (h : s.WF)
    (hc : s.impls x.channel = some ch) (hq : Quiet ch ch')
    (he : s.advance t wake x = .ok (x', s.setImpl x.channel ch'))
    (hm : Moved x.channel ch ch' (some x) x' t) :
    s.Advances t wake x x' ch ch' (s.setImpl x.channel ch') :=
  ⟨hc, he, h.quiet hc hq, .refl _, hm⟩

section Stages

variable {timestamp : Time} {p : Slot} {i : Nat} (h : s.WF) (hacc : Accounted s.impls clients t)
variable (hc : s.impls c = some ch) (wake : Nat)
include h hacc hc

theorem advance_round :
    ∃ x' ch' s', s.Advances t wake (.acquiring c timestamp (.round i)) x' ch ch' s' := by
  have ht := hacc.times c ch hc
  cases hf : ch.freePackets.getLast?
  case none =>
    have hq : Quiet ch ch := ⟨rfl, fun _ _ => rfl, rfl, rfl, rfl, rfl⟩
    refine ⟨if i + 1 < 2 then some (.acquiring c timestamp .dropping) else none, ch, _,
      .of_quiet h hc hq ?_ <| .of_quiet hq ht ?_ ?_ rfl ?_ ?_ (fun _ _ => ⟨rfl, rfl⟩) ?_ fun _ p => ?_⟩
    · simp [advance, deref_eq hc, ChannelImpl.takeFree, hf, Client.channel, setImpl_self hc]
    · simp
    all_goals split <;> simp [Client.channel, Client.leaves, Client.packet?, Client.fills,
      Client.processes, Client.Timely, Client.alive]
  case some p =>
    have hfree : ch.freePackets = ch.freePackets.dropLast ++ [p] :=
      (List.dropLast_append_getLast? p hf).symm
    have hq : Quiet ch { ch with freePackets := ch.freePackets.dropLast } :=
      ⟨rfl, fun _ _ => rfl, rfl, rfl, rfl, rfl⟩
    refine ⟨some (.acquiring c timestamp (.acquired p)), _, _, .of_quiet h hc hq ?_ <|
      .of_quiet hq ht ?_ ?_ rfl rfl ?_ (fun _ _ => ⟨rfl, rfl⟩) ?_ fun _ _ => rfl⟩
    · simp [advance, deref_eq hc, ChannelImpl.takeFree, hf, Client.channel]
    · simp [Client.channel]
    · simp [Client.channel]
    · simp [Client.packet?, Client.fills, Client.processes, ← hfree]
    · simp [Client.Timely]

theorem advance_dropping :
    ∃ x' ch' s', s.Advances t wake (.acquiring c timestamp .dropping) x' ch ch' s' := by
  have ht := hacc.times c ch hc
  cases getNext_spec h hacc hc true
  case inl hn =>
    have hq : Quiet ch ch := ⟨rfl, fun _ _ => rfl, rfl, rfl, rfl, rfl⟩
    refine ⟨none, ch, _, .of_quiet h hc hq ?_ <| .of_quiet hq ht ?_ nofun rfl rfl (.refl _)
      (fun _ _ => ⟨rfl, rfl⟩) nofun fun _ _ => rfl⟩
    · simp [advance, hn.2, Client.channel, setImpl_self hc]
    · simp [Client.channel]
  case inr hn =>
    have ⟨p, rest, q, s', hf, hperm, hs', hwf, hr⟩ := hn
    refine ⟨some (.acquiring c timestamp (.dropped p)), ch.popped q p true t, s', hc, ?_, hwf, ?_,
      .popped hf hperm ht (by simp [Client.channel]) rfl rfl rfl rfl rfl rfl rfl trivial
        fun _ => ⟨timestamp, rfl⟩⟩
    · simp [advance, hs']
    · exact ⟨hr.frame, hr.enabled, .inl <| hr.workers.resolve_right (by simp)⟩

theorem advance_dropped (hx : .acquiring c timestamp (.dropped p) ∈ clients) :
    ∃ x' ch' s', s.Advances t wake (.acquiring c timestamp (.dropped p)) x' ch ch' s' := by
  have hq : Quiet ch { ch with freePackets := ch.freePackets ++ [p] } :=
    ⟨rfl, fun _ _ => rfl, rfl, rfl, rfl, rfl⟩
  refine ⟨some (.acquiring c timestamp .logging), _, _, .of_quiet h hc hq ?_ <|
    .of_quiet hq (hacc.times c ch hc) (by simp) (by simp [Client.channel]) rfl rfl ?_
      (fun _ _ => ⟨rfl, rfl⟩) (by simp [Client.Timely]) (by simp [Client.isDropped])⟩
  · simp [advance, deref_eq hc, ChannelImpl.giveFree, hacc.lt_capacity hx hc rfl,
      hacc.length_free_lt hx hc rfl, Client.channel]
  · simp [Client.packet?, Client.fills, Client.processes]

theorem advance_logging :
    ∃ x' ch' s', s.Advances t wake (.acquiring c timestamp .logging) x' ch ch' s' := by
  have hq : Quiet ch (ch.log .droppedPacket 1) := .log ..
  refine ⟨some (.acquiring c timestamp (.round 1)), _, _, .of_quiet h hc hq ?_ <|
    .of_quiet hq (hacc.times c ch hc) (by simp) (by simp [Client.channel]) rfl rfl (.refl _)
      (fun _ _ => ⟨rfl, rfl⟩) (by simp [Client.Timely]) fun _ _ => rfl⟩
  simp [advance, deref_eq hc, Client.channel]

theorem advance_acquired (hx : .acquiring c timestamp (.acquired p) ∈ clients) :
    ∃ x' ch' s', s.Advances t wake (.acquiring c timestamp (.acquired p)) x' ch ch' s' := by
  have hp := hacc.notMem_queue hx hc rfl
  have hother (p' : Slot) (hp' : p' ≠ p) :
      ((ch.stamp p t).construct p timestamp).timestamp p' = ch.timestamp p' ∧
      ((ch.stamp p t).construct p timestamp).opTimestamp p' = ch.opTimestamp p' := by
    simp [ChannelImpl.construct_timestamp, ChannelImpl.stamp_opTimestamp, hp']
  have hq : Quiet ch ((ch.stamp p t).construct p timestamp) :=
    ⟨rfl, fun p' hp' => (hother p' fun he => hp (he ▸ hp')).1, rfl, rfl, rfl, rfl⟩
  refine ⟨some (.filling c p), _, _, .of_quiet h hc hq ?_ <|
    .of_quiet hq (hacc.times c ch hc) (by simp) (by simp [Client.channel]) rfl rfl (.refl _)
      (fun p' hp' => hother p' ?_) ?_ fun _ p' => ?_⟩
  · simp [advance, deref_eq hc, hacc.lt_capacity hx hc rfl, Client.channel]
  · simpa [Client.packet?, Client.fills, Client.processes] using hp'
  · simp [Client.Timely, ChannelImpl.stamp_opTimestamp]
  · by_cases hp' : p' = p
    case pos => simp [hp', ChannelImpl.construct, ChannelImpl.stamp, Client.alive]; omega
    case neg => simp [hp', ChannelImpl.construct, ChannelImpl.stamp, Client.alive, Ne.symm hp']

theorem advance_filling (hx : .filling c p ∈ clients) (hp : ch.timestamp p ≤ t) :
    ∃ x' ch' s', s.Advances t wake (.filling c p) x' ch ch' s' := by
  have hop : ch.opTimestamp p ≤ t := hacc.timely _ hx ch hc
  have hq : Quiet ch ((ch.log .pushed (t - ch.timestamp p)).log .fillTime (t - ch.opTimestamp p)) :=
    (Quiet.log ..).trans (.log ..)
  refine ⟨some (.pushing c p), _, _, .of_quiet h hc hq ?_ <|
    .of_quiet hq (hacc.times c ch hc) (by simp) (by simp [Client.channel]) rfl rfl (.refl _)
      (fun _ _ => ⟨rfl, rfl⟩) (by simpa [Client.Timely] using hp) fun _ _ => rfl⟩
  simp [advance, deref_eq hc, hp, hop, Client.channel]

theorem advance_pushing (hx : .pushing c p ∈ clients) (ht : t < kMaxTime) :
    ∃ x' ch' s', s.Advances t wake (.pushing c p) x' ch ch' s' := by
  have hp : ch.timestamp p ≤ t := hacc.timely _ hx ch hc
  have ⟨s', q, hs', hwf, hperm, hr⟩ := push_spec h hc (hacc.size_queue_lt hx hc rfl)
    (hacc.notMem_queue hx hc rfl) (Int.lt_of_le_of_lt hp ht) wake
  have hqp : q.heap.Perm (ch.queuedPackets.heap ++ [p]) :=
    hperm.trans (List.perm_append_singleton p _).symm
  refine ⟨none, ch.setQueued q, s', hc, ?_, hwf, hr, rfl, rfl, rfl, by simp, nofun, ?_, ?_,
    fun _ _ => rfl, fun p' hp' => ?_, fun _ _ _ => ⟨rfl, rfl⟩, nofun, nofun, fun _ p' => ?_⟩
  case refine_1 => simp [advance, hs']
  case refine_2 =>
    simp only [Client.slots_none, List.append_nil]
    rw [List.append_assoc]
    exact hqp.append_left _
  case refine_3 => simpa [Client.enters] using hqp
  case refine_4 =>
    cases List.mem_append.mp <| hqp.mem_iff.mp hp'
    case inl hp' => exact hacc.times c ch hc p' hp'
    case inr hp' => exact List.mem_singleton.mp hp' ▸ hp
  case refine_5 => simp [Client.alive, hqp.count_eq]; rfl

theorem advance_processing (hx : .processing c p ∈ clients) :
    ∃ x' ch' s', s.Advances t wake (.processing c p) x' ch ch' s' := by
  have hop : ch.opTimestamp p ≤ t := hacc.timely _ hx ch hc
  have hd : Quiet ch (ch.destruct p) := ⟨rfl, fun _ _ => rfl, rfl, rfl, rfl, rfl⟩
  have hq : Quiet ch ((ch.destruct p).log .readTime (t - ch.opTimestamp p)) := hd.trans (.log ..)
  refine ⟨some (.releasing c p), _, _, .of_quiet h hc hq ?_ <|
    .of_quiet hq (hacc.times c ch hc) (by simp) (by simp [Client.channel]) rfl rfl (.refl _)
      (fun _ _ => ⟨rfl, rfl⟩) (by simp [Client.Timely]) fun _ p' => ?_⟩
  · simp [advance, deref_eq hc, hop, Client.channel]
  · by_cases hp' : p' = p
    case pos => simp [hp', ChannelImpl.destruct, ChannelImpl.log, Client.alive]; omega
    case neg => simp [hp', ChannelImpl.destruct, ChannelImpl.log, Client.alive, Ne.symm hp']

theorem advance_releasing (hx : .releasing c p ∈ clients) :
    ∃ x' ch' s', s.Advances t wake (.releasing c p) x' ch ch' s' := by
  have hq : Quiet ch { ch with freePackets := ch.freePackets ++ [p] } :=
    ⟨rfl, fun _ _ => rfl, rfl, rfl, rfl, rfl⟩
  refine ⟨none, _, _, .of_quiet h hc hq ?_ <|
    .of_quiet hq (hacc.times c ch hc) (by simp) nofun rfl rfl ?_
      (fun _ _ => ⟨rfl, rfl⟩) nofun fun _ _ => rfl⟩
  · simp [advance, deref_eq hc, ChannelImpl.giveFree, hacc.lt_capacity hx hc rfl,
      hacc.length_free_lt hx hc rfl, Client.channel]
  · simp [Client.packet?, Client.fills, Client.processes]

end Stages

-- One step of a client, in any stage.
theorem advance_spec {x : Client} (h : s.WF) (hacc : Accounted s.impls clients t) (hx : x ∈ clients)
    (hp : ∀ c p, x = .filling c p → s.timestamp c p ≤ t) (ht : t < kMaxTime) (wake : Nat) :
    ∃ x' ch ch' s', s.Advances t wake x x' ch ch' s' := by
  have ⟨ch, hc⟩ := hacc.live x hx
  suffices hs : ∃ x' ch' s', s.Advances t wake x x' ch ch' s' by
    have ⟨x', ch', s', hs⟩ := hs
    exact ⟨x', ch, ch', s', hs⟩
  cases x
  case acquiring c timestamp stage =>
    cases stage
    case round i    => exact advance_round h hacc hc wake
    case dropping   => exact advance_dropping h hacc hc wake
    case dropped p  => exact advance_dropped h hacc hc wake hx
    case logging    => exact advance_logging h hacc hc wake
    case acquired p => exact advance_acquired h hacc hc wake hx
  case filling c p =>
    refine advance_filling h hacc hc wake hx ?_
    have hc : s.impls c = some ch := hc
    simpa [SchedulerImpl.timestamp, hc] using hp c p rfl
  case pushing c p    => exact advance_pushing h hacc hc wake hx ht
  case processing c p => exact advance_processing h hacc hc wake hx
  case releasing c p  => exact advance_releasing h hacc hc wake hx

-- `PolledChannel<T>::Poll`, which makes a stub for the packet that it gets.
theorem poll_spec (h : s.WF) (hacc : Accounted s.impls clients t) (hc : s.impls c = some ch) :
    ∃ p ch' s', s.getNext c false t = .ok (p, s') ∧ s'.WF ∧ Requeued (s.setImpl c ch') s' none ∧
      Moved c ch ch' none (p.map (.processing c)) t := by
  have ht := hacc.times c ch hc
  cases getNext_spec h hacc hc false
  case inl hn =>
    have hq : Quiet ch ch := ⟨rfl, fun _ _ => rfl, rfl, rfl, rfl, rfl⟩
    refine ⟨none, ch, s, hn.2, h, ?_, .of_quiet hq ht nofun nofun rfl rfl (.refl _)
      (fun _ _ => ⟨rfl, rfl⟩) nofun fun _ _ => rfl⟩
    rw [setImpl_self hc]
    exact .refl s
  case inr hn =>
    have ⟨p, rest, q, s', hf, hperm, hs', hwf, hr⟩ := hn
    exact ⟨some p, ch.popped q p false t, s', hs', hwf, hr, .retrieved hf hperm ht⟩

end SchedulerImpl
end PipeRT
