import PipeRT.Stub.Results
import PipeRT.Bounded

namespace PipeRT

-- A thread of the user that has a `PolledChannel<T>` for itself. The `data_` members of the packets
-- are kept by their slots.
structure Poller (T : Type) where
  owner : Owner
  data  : Slot → T

inductive Call (T : Type) where
  | tick (t : Time)
  | acquire (timestamp : Time) (args : T)
  -- An assignment to the `data()` of a stub.
  | write (i : Nat) (x : T)
  | push (i : Nat)
  | poll
  | release (i : Nat)

namespace Poller

variable {T : Type}

def packet? (y : Poller T) (i : Nat) : Option Slot :=
  y.owner.stubs[i]?.bind (·.packet)

-- There are stubs of the right kinds.
def Guard (y : Poller T) : Call T → Prop
  | .tick t          => y.owner.now ≤ t ∧ t < kMaxTime
  | .acquire .. | .poll => True
  | .write i _       => (y.owner.stubs[i]?).isSome = true
  | .push i          => y.owner.stubs[i]?.map (·.kind) = some .toFill
  | .release i       => y.owner.stubs[i]?.map (·.kind) = some .toProcess

instance {y : Poller T} : DecidablePred y.Guard
  | .tick _ => inferInstanceAs (Decidable (_ ∧ _))
  | .acquire .. | .poll => .isTrue trivial
  | .write .. | .push _ | .release _ => inferInstanceAs (Decidable (_ = _))

def exec (c : ChannelId) (y : Poller T) : Call T → Except Fault (Poller T)
  | .tick t => do
    let owner ← y.owner.exec (.tick t)
    return { y with owner }
  | .acquire timestamp args => do
    let owner ← y.owner.exec (.acquire c timestamp)
    -- The new stub is the last one.
    match owner.stubs.getLast?.bind (·.packet) with
    | none        => return { y with owner }
    | some packet => return { owner, data := Function.update y.data packet args }
  | .write i x =>
    match y.packet? i with
    | none        => .error .assertion
    | some packet => return { y with data := Function.update y.data packet x }
  | .push i | .release i => do
    let owner ← y.owner.exec (.finish i)
    return { y with owner }
  | .poll => do
    let owner ← y.owner.exec (.poll c)
    return { y with owner }

-- A packet is only used while a stub refers to it, and is not pushed before its time.
def Proper (c : ChannelId) (y : Poller T) : Call T → Prop
  | .write i _ | .release i => (y.packet? i).isSome = true
  | .push i                 => (y.packet? i).any (fun p => y.owner.sched.timestamp c p ≤ y.owner.now) = true
  | _                       => True

end Poller

-- The thread begins when the channel has just been created, next to any others.
def poller (T : Type) (c : ChannelId) (capacity : Nat) : Machine (Poller T) (Call T) Fault where
  Init y := ∃ y₀ name state, owner.Reachable Owner.Careful y₀ ∧ y₀.stubs = [] ∧
            owner.Step y₀ (.createChannel c name capacity state false) y.owner
  Guard  := Poller.Guard
  exec   := Poller.exec c

instance {T : Type} {c : ChannelId} {capacity : Nat} (y : Poller T) (call : Call T) :
    Decidable ((poller T c capacity).Guard y call) :=
  inferInstanceAs (Decidable (y.Guard call))

-- What the calls do to the reference.
def Call.event {T : Type} : Call T → Bounded.Event (Time × T)
  | .tick _                 => .idle
  | .acquire timestamp args => .acquire (timestamp, args)
  | .write i x              => .update i fun item => (item.1, x)
  | .push i                 => .push i
  | .poll                   => .poll
  | .release i              => .release i

namespace Poller

variable {T : Type} {c : ChannelId} {y y' : Poller T} {ch ch' : ChannelImpl} {data : Slot → T}
variable {p : Slot}

def item (ch : ChannelImpl) (data : Slot → T) (packet : Slot) : Time × T :=
  (ch.timestamp packet, data packet)

def handle (ch : ChannelImpl) (data : Slot → T) (stub : PacketStub) : Bounded.Handle (Time × T) where
  filling := stub.kind = .toFill
  item    := stub.packet.map (item ch data)

-- The channel as a bounded priority queue, and the stubs as its handles.
def bounded (c : ChannelId) (y : Poller T) : Bounded.Queue (Time × T) :=
  match y.owner.sched.impls c with
  | none    => .new 0
  | some ch => {
      capacity := ch.capacity
      queued   := Multiset.ofList (ch.queuedPackets.heap.map (item ch y.data))
      handles  := y.owner.stubs.map (handle ch y.data) }

theorem bounded_eq (hc : y.owner.sched.impls c = some ch) : y.bounded c = {
    capacity := ch.capacity
    queued   := Multiset.ofList (ch.queuedPackets.heap.map (item ch y.data))
    handles  := y.owner.stubs.map (handle ch y.data) } := by
  rw [bounded, hc]

structure Inv (c : ChannelId) (y : Poller T) : Prop where
  owner : y.owner.Inv
  live  : ∃ ch, y.owner.sched.impls c = some ch
  stubs : ∀ stub ∈ y.owner.stubs, stub.channel = c

theorem Inv.slots (h : y.Inv c) (hc : y.owner.sched.impls c = some ch) :
    (ch.freePackets ++ ch.queuedPackets.heap ++ PacketStub.heldBy c y.owner.stubs).Perm
      (List.range ch.capacity) :=
  PacketStub.heldBy_eq ▸ h.owner.accounted.slots c ch hc

theorem Inv.mem_heldBy {stub : PacketStub} {p : Slot} (h : y.Inv c) (hs : stub ∈ y.owner.stubs)
    (hp : stub.packet = some p) : p ∈ PacketStub.heldBy c y.owner.stubs :=
  List.mem_filterMap.mpr ⟨stub, hs, by rw [if_pos (h.stubs stub hs), hp]⟩

theorem Inv.held_eq (h : y.Inv c) (hc : y.owner.sched.impls c = some ch) :
    (y.bounded c).held = (PacketStub.heldBy c y.owner.stubs).length := by
  rw [bounded_eq hc, Bounded.Queue.held, List.countP_map, PacketStub.heldBy,
    List.length_filterMap_eq_countP]
  refine List.countP_congr fun stub hs => ?_
  simp [handle, h.stubs stub hs]

theorem Inv.free_eq (h : y.Inv c) (hc : y.owner.sched.impls c = some ch) :
    (y.bounded c).free = ch.freePackets.length := by
  have hlen := (h.slots hc).length_eq
  have hq : (y.bounded c).queued.card = ch.queuedPackets.heap.length := by simp [bounded_eq hc]
  have hcap : (y.bounded c).capacity = ch.capacity := by rw [bounded_eq hc]
  rw [Bounded.Queue.free, h.held_eq hc, hq, hcap]
  simp only [List.length_append, List.length_range] at hlen
  omega

-- The packets themselves stay as they are.
theorem bounded_requeued (hc : y.owner.sched.impls c = some ch)
    (hc' : y'.owner.sched.impls c = some ch') (hd : y'.data = y.data)
    (ht : ch'.timestamp = ch.timestamp) (hcap : ch'.capacity = ch.capacity) :
    y'.bounded c = {
      capacity := (y.bounded c).capacity
      queued   := Multiset.ofList (ch'.queuedPackets.heap.map (item ch y.data))
      handles  := y'.owner.stubs.map (handle ch y.data) } := by
  have hitem : item ch' y.data = item ch y.data := by
    funext p
    rw [item, item, ht]
  have hhandle : handle ch' y.data = handle ch y.data := by
    funext stub
    rw [handle, handle, hitem]
  rw [bounded_eq hc, bounded_eq hc', hd, hitem, hhandle, hcap]

theorem handles_append (stub : PacketStub) (hc : y.owner.sched.impls c = some ch) :
    (y.owner.stubs ++ [stub]).map (handle ch y.data) =
    (y.bounded c).handles ++ [handle ch y.data stub] := by
  rw [bounded_eq hc, List.map_append]
  rfl

-- A stub gets empty.
theorem handles_setEmpty {stub : PacketStub} {i : Nat} (hc : y.owner.sched.impls c = some ch)
    (hi : y.owner.stubs[i]? = some stub) :
    (y.owner.stubs.modify i PacketStub.setEmpty).map (handle ch y.data) =
    (y.bounded c).handles.set i ⟨stub.kind = .toFill, none⟩ := by
  rw [List.modify_eq_set_getElem?, hi, bounded_eq hc]
  simp [List.map_set, handle, PacketStub.setEmpty]

theorem handles_getElem? {stub : PacketStub} {i : Nat} (hc : y.owner.sched.impls c = some ch)
    (hi : y.owner.stubs[i]? = some stub) :
    (y.bounded c).handles[i]? = some (handle ch y.data stub) := by
  simp [bounded_eq hc, hi]

-- `Push` and `Release` need a packet.
theorem exists_of_finish {owner : Owner} {stub : PacketStub} {i : Nat}
    (hi : y.owner.stubs[i]? = some stub) (he : y.owner.exec (.finish i) = .ok owner) :
    ∃ p s', stub.packet = some p ∧ stub.finish y.owner.sched y.owner.now = .ok s' ∧
      owner = { y.owner with sched := s', stubs := y.owner.stubs.modify i PacketStub.setEmpty } := by
  simp only [Owner.exec, hi] at he
  obtain ⟨s', hs', he⟩ := bind_eq_ok.mp he
  have he := (Except.ok.inj he).symm
  cases hp : stub.packet
  case none   => simp [PacketStub.finish, hp] at hs'
  case some p => exact ⟨p, s', rfl, hs', he⟩

theorem Inv.mem_clients {stub : PacketStub} {x : Client} {i : Nat} (h : y.Inv c)
    (hi : y.owner.stubs[i]? = some stub) (hp : stub.packet = some p)
    (hx : x = match stub.kind with
      | .toFill    => .filling c p
      | .toProcess => .processing c p) : x ∈ PacketStub.clients y.owner.stubs := by
  have hm := List.mem_of_getElem? hi
  refine List.mem_filterMap.mpr ⟨stub, hm, ?_⟩
  cases hk : stub.kind <;> simp [PacketStub.client?, hk, hp, hx, h.stubs stub hm]

-- The free packets after a call. A packet that is dropped gets to them and is taken at once.
def freeAfter (y : Poller T) (free : List Slot) : Call T → List Slot
  | .acquire .. => free.dropLast
  | .release i  => free ++ (y.packet? i).toList
  | _           => free

-- A call leaves the channel where it is, and does to it what it does to the reference.
structure Refines (c : ChannelId) (y : Poller T) (call : Call T) (y' : Poller T) : Prop where
  live : ∀ ch, y.owner.sched.impls c = some ch → ∃ ch', y'.owner.sched.impls c = some ch' ∧
         ch'.capacity = ch.capacity ∧ ch'.freePackets = y.freeAfter ch.freePackets call
  step : Bounded.Queue.Step Prod.fst (y.bounded c) call.event (y'.bounded c)

theorem Refines.of_impls {call : Call T} (hc : y.owner.sched.impls c = some ch)
    (hc' : y'.owner.sched.impls c = some ch') (hcap : ch'.capacity = ch.capacity)
    (hfree : ch'.freePackets = y.freeAfter ch.freePackets call)
    (hs : Bounded.Queue.Step Prod.fst (y.bounded c) call.event (y'.bounded c)) : Refines c y call y' where
  live ch₀ h₀ := by
    obtain rfl := Option.some.inj <| h₀.symm.trans hc
    exact ⟨ch', hc', hcap, hfree⟩
  step := hs

section Step

variable {rest : List Slot} {q : SteadyHeap Slot} {timestamp t : Time} {args : T}
variable (h : y.Inv c) (hc : y.owner.sched.impls c = some ch)
include h hc

theorem Inv.fresh_of_free (hp : p ∈ ch.freePackets) :
    p ∉ ch.queuedPackets.heap ∧ p ∉ PacketStub.heldBy c y.owner.stubs := by
  have hnd := (h.slots hc).nodup_iff.mpr List.nodup_range
  rw [List.append_assoc] at hnd
  have hne := (List.nodup_append.mp hnd).2.2 p hp p
  exact ⟨fun hq => hne (List.mem_append_left _ hq) rfl, fun hs => hne (List.mem_append_right _ hs) rfl⟩

theorem Inv.fresh_of_front (hf : ch.queuedPackets.heap = p :: rest) :
    p ∉ rest ∧ p ∉ PacketStub.heldBy c y.owner.stubs := by
  have hnd := (h.slots hc).nodup_iff.mpr List.nodup_range
  have hne := (List.nodup_append.mp hnd).2.2 p (by simp [hf]) p
  have hq := (h.owner.wf.sorted c ch hc).nodup
  rw [hf] at hq
  exact ⟨(List.nodup_cons.mp hq).1, fun hs => hne hs rfl⟩

-- The packet that leaves the queue is the least one.
theorem Inv.takes (hf : ch.queuedPackets.heap = p :: rest) (hperm : q.heap.Perm rest) :
    Bounded.Takes Prod.fst (y.bounded c).queued (some (item ch y.data p))
      (Multiset.ofList (q.heap.map (item ch y.data))) := by
  rw [bounded_eq hc]
  refine .of_perm ?_ fun other ho => ?_
  · rw [hf]
    exact (hperm.symm.map _).cons _
  · have ⟨p', hp', heq⟩ := List.mem_map.mp ho
    exact heq ▸ (h.owner.wf.sorted c ch hc).order.root_le (by rw [hf]; rfl) hp'

-- The stubs see nothing of a packet that they do not refer to.
theorem Inv.handles_congr
    (hi : ∀ p ∈ PacketStub.heldBy c y.owner.stubs, item ch' data p = item ch y.data p) :
    y.owner.stubs.map (handle ch' data) = (y.bounded c).handles := by
  rw [bounded_eq hc]
  refine List.map_congr_left fun stub hs => ?_
  cases hp : stub.packet
  case none   => simp [handle, hp]
  case some p => simp [handle, hp, hi p <| h.mem_heldBy hs hp]

-- A new packet is constructed in the slot `p`, in which there was none.
theorem Inv.bounded_constructed {ch₁ : ChannelImpl}
    (hs : y'.owner.stubs = y.owner.stubs ++ [{ kind := .toFill, channel := c, packet := some p }])
    (hd : y'.data = Function.update y.data p args)
    (hc' : y'.owner.sched.impls c = some ((ch₁.stamp p t).construct p timestamp))
    (ht : ch₁.timestamp = ch.timestamp) (hcap : ch₁.capacity = ch.capacity)
    (hq : p ∉ ch₁.queuedPackets.heap) (hh : p ∉ PacketStub.heldBy c y.owner.stubs) :
    y'.bounded c = {
      capacity := (y.bounded c).capacity
      queued   := Multiset.ofList (ch₁.queuedPackets.heap.map (item ch y.data))
      handles  := (y.bounded c).handles ++ [⟨true, some (timestamp, args)⟩] } := by
  have hitem (p' : Slot) (hp' : p' ≠ p) : item ((ch₁.stamp p t).construct p timestamp)
      (Function.update y.data p args) p' = item ch y.data p' := by
    simp [item, ChannelImpl.construct_timestamp, ht, hp']
  have hself : item ((ch₁.stamp p t).construct p timestamp) (Function.update y.data p args) p =
      (timestamp, args) := by
    simp [item, ChannelImpl.construct_timestamp]
  have hold := h.handles_congr hc fun p' hp' => hitem p' fun he => hh (he ▸ hp')
  rw [bounded_eq hc', hd, hs, List.map_append, hold]
  refine Bounded.Queue.ext ?_ ?_ ?_
  case refine_1 => simp [bounded_eq hc, hcap]
  case refine_2 =>
    refine congrArg Multiset.ofList <| List.map_congr_left fun p' hp' => hitem p' fun he => hq ?_
    simpa [he] using hp'
  case refine_3 => simp [handle, hself]

theorem Inv.acquire (he : y.exec c (.acquire timestamp args) = .ok y') :
    Refines c y (.acquire timestamp args) y' := by
  have ⟨owner, ho, he⟩ := bind_eq_ok.mp he
  have ⟨⟨packet, s'⟩, ha, ho⟩ := bind_eq_ok.mp ho
  obtain rfl := Except.ok.inj ho
  rcases Channel.acquire_spec h.owner.wf h.owner.accounted hc timestamp with
    ⟨p, free, s₁, hfree, hs₁, hc'⟩ | ⟨hfree, hq, hs₁⟩ | ⟨p, rest, q, s₁, hfree, hf, hperm, hs₁, hc'⟩
  case inl =>
    obtain ⟨rfl, rfl⟩ := Prod.mk.inj <| Except.ok.inj <| ha.symm.trans hs₁
    simp only [List.getLast?_concat, Option.bind_some] at he
    have hy := (Except.ok.inj he).symm
    have hc₂ := (congrArg (·.owner.sched.impls c) hy).trans hc'
    have ⟨hq, hh⟩ := h.fresh_of_free hc (p := p) <| by simp [hfree]
    refine .of_impls hc hc₂ rfl (by simp [freeAfter, hfree]) ?_
    rw [h.bounded_constructed hc (congrArg (·.owner.stubs) hy) (congrArg (·.data) hy) hc₂ (by rfl)
      (by rfl) (by exact hq) hh]
    have hstep : Bounded.Queue.Step Prod.fst (y.bounded c) (.acquire (timestamp, args)) _ :=
      .acquire <| by simp [h.free_eq hc, hfree]
    rwa [bounded_eq hc] at hstep ⊢
  case inr.inl =>
    obtain ⟨rfl, rfl⟩ := Prod.mk.inj <| Except.ok.inj <| ha.symm.trans hs₁
    simp only [List.getLast?_concat, Option.bind_some] at he
    have hy := (Except.ok.inj he).symm
    have hc₂ := (congrArg (·.owner.sched.impls c) hy).trans hc
    have hlen := (h.slots hc).length_eq
    refine .of_impls hc hc₂ rfl (by simp [freeAfter, hfree]) ?_
    rw [bounded_requeued hc hc₂ (congrArg (·.data) hy) (by rfl) (by rfl), congrArg (·.owner.stubs) hy, handles_append _ hc]
    have hstep : Bounded.Queue.Step Prod.fst (y.bounded c) (.acquire (timestamp, args)) _ :=
      .refuse <| by
        rw [h.held_eq hc, bounded_eq hc]
        simpa [hfree, hq] using hlen
    rwa [bounded_eq hc] at hstep ⊢
  case inr.inr =>
    obtain ⟨rfl, rfl⟩ := Prod.mk.inj <| Except.ok.inj <| ha.symm.trans hs₁
    simp only [List.getLast?_concat, Option.bind_some] at he
    have hy := (Except.ok.inj he).symm
    have hc₂ := (congrArg (·.owner.sched.impls c) hy).trans hc'
    have ⟨hq, hh⟩ := h.fresh_of_front hc hf
    have hnq : p ∉ ((ch.popped q p true y.owner.now).log .droppedPacket 1).queuedPackets.heap := by
      simpa [hperm.mem_iff] using hq
    refine .of_impls hc hc₂ (by simp) (by simp [freeAfter, hfree]) ?_
    rw [h.bounded_constructed hc (congrArg (·.owner.stubs) hy) (congrArg (·.data) hy) hc₂ (by simp)
      (by simp) hnq hh]
    exact .replace (by simp [h.free_eq hc, hfree]) <| by simpa using h.takes hc hf hperm

theorem Inv.poll (he : y.exec c .poll = .ok y') : Refines c y .poll y' := by
  have ⟨owner, ho, he⟩ := bind_eq_ok.mp he
  have ⟨⟨packet, s'⟩, ha, ho⟩ := bind_eq_ok.mp ho
  obtain rfl := Except.ok.inj ho
  have hy := (Except.ok.inj he).symm
  cases SchedulerImpl.getNext_spec h.owner.wf h.owner.accounted hc false
  case inl hn =>
    obtain ⟨rfl, rfl⟩ := Prod.mk.inj <| Except.ok.inj <| ha.symm.trans hn.2
    have hc₂ := (congrArg (·.owner.sched.impls c) hy).trans hc
    refine .of_impls hc hc₂ rfl rfl ?_
    rw [bounded_requeued hc hc₂ (congrArg (·.data) hy) (by rfl) (by rfl), congrArg (·.owner.stubs) hy,
      handles_append _ hc, hn.1]
    refine .poll ?_
    simp only [bounded_eq hc, hn.1]
    exact .empty
  case inr hn =>
    have ⟨p, rest, q, s₁, hf, hperm, hs₁, _, hr⟩ := hn
    obtain ⟨rfl, rfl⟩ := Prod.mk.inj <| Except.ok.inj <| ha.symm.trans hs₁
    have hc' : s'.impls c = some (ch.popped q p false y.owner.now) :=
      hr.impls ▸ SchedulerImpl.setImpl_impls_self
    have hc₂ := (congrArg (·.owner.sched.impls c) hy).trans hc'
    refine .of_impls hc hc₂ (by simp) (by simp [freeAfter]) ?_
    rw [bounded_requeued hc hc₂ (congrArg (·.data) hy) (by simp) (by simp), congrArg (·.owner.stubs) hy,
      handles_append _ hc, ChannelImpl.popped_queuedPackets]
    exact .poll <| h.takes hc hf hperm

theorem Inv.push {i : Nat} (hg : y.Guard (.push i)) (he : y.exec c (.push i) = .ok y') :
    Refines c y (.push i) y' := by
  have ⟨owner, ho, he⟩ := bind_eq_ok.mp he
  have ⟨stub, hi, hk⟩ := Option.map_eq_some_iff.mp hg
  have ⟨p, s', hp, hs', howner⟩ := exists_of_finish hi ho
  have hy := (Except.ok.inj he).symm
  have hst := h.stubs stub <| List.mem_of_getElem? hi
  rw [howner] at hy
  have hx := h.mem_clients hi hp (x := .filling c p) <| by rw [hk]
  simp only [PacketStub.finish, hp, hk, hst] at hs'
  have hpt : ch.timestamp p ≤ y.owner.now := by
    obtain ⟨ch₀, hd, hs'⟩ := bind_eq_ok.mp hs'
    obtain ⟨_, ht, _⟩ := bind_eq_ok.mp hs'
    obtain rfl := Option.some.inj <| (SchedulerImpl.impl_of_deref hd).symm.trans hc
    simpa using of_check ht
  obtain ⟨s₁, q, hs₁, hperm, hc'⟩ := Channel.push_spec h.owner.wf h.owner.accounted hc hx
    h.owner.clock hpt
  obtain rfl := Except.ok.inj <| hs'.symm.trans hs₁
  have hqueue : Multiset.ofList (q.heap.map (item ch y.data)) =
      item ch y.data p ::ₘ (y.bounded c).queued := by
    rw [bounded_eq hc]
    exact Multiset.coe_eq_coe.mpr <| hperm.map _
  have hhandle : (y.bounded c).handles[i]? = some ⟨true, some (item ch y.data p)⟩ := by
    rw [handles_getElem? hc hi]
    simp [handle, hk, hp]
  have hc₂ := (congrArg (·.owner.sched.impls c) hy).trans hc'
  refine .of_impls hc hc₂ rfl rfl ?_
  rw [bounded_requeued hc hc₂ (congrArg (·.data) hy) (by simp) (by rfl), congrArg (·.owner.stubs) hy,
    handles_setEmpty hc hi, ChannelImpl.setQueued_queuedPackets, hqueue, hk]
  exact .push hhandle

theorem Inv.release {i : Nat} (hg : y.Guard (.release i)) (he : y.exec c (.release i) = .ok y') :
    Refines c y (.release i) y' := by
  have ⟨owner, ho, he⟩ := bind_eq_ok.mp he
  have ⟨stub, hi, hk⟩ := Option.map_eq_some_iff.mp hg
  have ⟨p, s', hp, hs', howner⟩ := exists_of_finish hi ho
  have hy := (Except.ok.inj he).symm
  have hst := h.stubs stub <| List.mem_of_getElem? hi
  rw [howner] at hy
  have hx := h.mem_clients hi hp (x := .processing c p) <| by rw [hk]
  simp only [PacketStub.finish, hp, hk, hst] at hs'
  obtain rfl := Except.ok.inj <| hs'.symm.trans <| Channel.release_spec h.owner.accounted hc hx
  have hhandle : (y.bounded c).handles[i]? = some ⟨false, some (item ch y.data p)⟩ := by
    rw [handles_getElem? hc hi]
    simp [handle, hk, hp]
  have hc₂ := (congrArg (·.owner.sched.impls c) hy).trans SchedulerImpl.setImpl_impls_self
  refine .of_impls hc hc₂ rfl (by simp [freeAfter, packet?, hi, hp]) ?_
  rw [bounded_requeued hc hc₂ (congrArg (·.data) hy) (by rfl) (by rfl), congrArg (·.owner.stubs) hy,
    handles_setEmpty hc hi, hk]
  have hstep : Bounded.Queue.Step Prod.fst _ _ _ := .release hhandle
  rwa [bounded_eq hc] at hstep ⊢

-- Only one stub refers to a packet.
theorem Inv.notMem_others {stub stub' : PacketStub} {i j : Nat} (hi : y.owner.stubs[i]? = some stub)
    (hp : stub.packet = some p) (hj : y.owner.stubs[j]? = some stub') (hne : j ≠ i) :
    stub'.packet ≠ some p := by
  intro hp'
  have hst := h.stubs stub <| List.mem_of_getElem? hi
  have hst' := h.stubs stub' <| List.mem_of_getElem? hj
  have hperm : (PacketStub.heldBy c y.owner.stubs).Perm
      (p :: PacketStub.heldBy c (y.owner.stubs.eraseIdx i)) :=
    ((PacketStub.perm_cons_eraseIdx hi).filterMap _).trans <| .of_eq <| by
      simp [PacketStub.heldBy, hst, hp]
  have hnd := (List.nodup_append.mp <| (h.slots hc).nodup_iff.mpr List.nodup_range).2.1
  refine (List.nodup_cons.mp <| hperm.nodup_iff.mp hnd).1 ?_
  exact List.mem_filterMap.mpr ⟨stub', List.mem_eraseIdx_iff_getElem?.mpr ⟨j, hne, hj⟩, by simp [hst', hp']⟩

theorem Inv.handles_update {stub : PacketStub} {i : Nat} {x : T} (hi : y.owner.stubs[i]? = some stub)
    (hp : stub.packet = some p) :
    y.owner.stubs.map (handle ch (Function.update y.data p x)) =
    (y.bounded c).handles.set i ⟨stub.kind = .toFill, some (ch.timestamp p, x)⟩ := by
  refine List.ext_getElem? fun j => ?_
  rw [List.getElem?_map, bounded_eq hc]
  by_cases hj : j = i
  case pos =>
    subst hj
    have hlt := (List.getElem?_eq_some_iff.mp hi).1
    rw [hi, List.getElem?_set_self (by simpa using hlt)]
    simp [handle, hp, item]
  case neg =>
    rw [List.getElem?_set_ne (Ne.symm hj), List.getElem?_map]
    cases hs : y.owner.stubs[j]?
    case none       => rfl
    case some stub' =>
      have hne := h.notMem_others hc hi hp hs hj
      cases hp' : stub'.packet
      case none    => simp [handle, hp']
      case some p' =>
        have hpp : p' ≠ p := fun he => hne <| he ▸ hp'
        simp [handle, hp', item, hpp]

theorem Inv.write {i : Nat} {x : T} (he : y.exec c (.write i x) = .ok y') :
    Refines c y (.write i x) y' := by
  cases hp : y.packet? i
  case none => simp [exec, hp] at he
  case some p =>
    simp only [exec, hp] at he
    obtain rfl := Except.ok.inj he
    obtain ⟨stub, hi, hp⟩ := Option.bind_eq_some_iff.mp hp
    have hheld := h.mem_heldBy (List.mem_of_getElem? hi) hp
    have hnd := (h.slots hc).nodup_iff.mpr List.nodup_range
    have hqueue : ch.queuedPackets.heap.map (item ch (Function.update y.data p x)) =
        ch.queuedPackets.heap.map (item ch y.data) := by
      refine List.map_congr_left fun p' hp' => ?_
      have hne := (List.nodup_append.mp hnd).2.2 p' (List.mem_append_right _ hp') p hheld
      simp [item, hne]
    have hhandle : (y.bounded c).handles[i]? =
        some ⟨stub.kind = .toFill, some (item ch y.data p)⟩ := by
      rw [handles_getElem? hc hi]
      simp [handle, hp]
    have hstep : Bounded.Queue.Step Prod.fst (y.bounded c) (.update i fun item => (item.1, x)) _ :=
      .update hhandle rfl
    refine .of_impls hc hc rfl rfl ?_
    have hc' : Poller.bounded c { y with data := Function.update y.data p x } = _ := bounded_eq hc
    rw [hc', hqueue, h.handles_update hc hi hp]
    rwa [bounded_eq hc] at hstep ⊢

end Step

theorem Inv.refines {call : Call T} (h : y.Inv c) (hg : y.Guard call)
    (he : y.exec c call = .ok y') : Refines c y call y' := by
  have ⟨ch, hc⟩ := h.live
  cases call
  case acquire timestamp args => exact h.acquire hc he
  case write i x              => exact h.write hc he
  case push i                 => exact h.push hc hg he
  case poll                   => exact h.poll hc he
  case release i              => exact h.release hc hg he
  case tick t =>
    obtain rfl := Except.ok.inj he
    exact .of_impls hc hc rfl rfl .idle

-- The operation of the owner, unless only data is written.
def operation (c : ChannelId) : Call T → Option Operation
  | .tick t              => some (.tick t)
  | .acquire timestamp _ => some (.acquire c timestamp)
  | .write ..            => none
  | .push i | .release i => some (.finish i)
  | .poll                => some (.poll c)

theorem exec_owner {call : Call T} (he : y.exec c call = .ok y') :
    ((operation c call).elim (.ok y.owner) y.owner.exec) = .ok y'.owner := by
  cases call
  case tick | push | release | poll =>
    have ⟨owner, ho, he⟩ := bind_eq_ok.mp he
    exact Except.ok.inj he ▸ ho
  case acquire timestamp args =>
    obtain ⟨owner, ho, he⟩ := bind_eq_ok.mp he
    split at he <;> exact Except.ok.inj he ▸ ho
  case write i x =>
    cases hp : y.packet? i
    case none   => simp [exec, hp] at he
    case some p =>
      simp only [exec, hp] at he
      exact Except.ok.inj he ▸ rfl

theorem guard_operation {call : Call T} {a : Operation} (hc : y.owner.sched.impls c = some ch)
    (hg : y.Guard call) (ha : a ∈ operation c call) : y.owner.Guard a ∧ y.owner.Careful a := by
  cases call
  case write => contradiction
  case tick  => exact Option.some.inj ha ▸ ⟨hg, trivial⟩
  case acquire | poll => exact Option.some.inj ha ▸ ⟨by simp [Owner.Guard, hc], trivial⟩
  case push | release =>
    have ⟨stub, hi, _⟩ := Option.map_eq_some_iff.mp hg
    exact Option.some.inj ha ▸ ⟨by simp [Owner.Guard, hi], trivial⟩

theorem stubs_channel {call : Call T} (h : ∀ stub ∈ y.owner.stubs, stub.channel = c)
    (he : y.exec c call = .ok y') : ∀ stub ∈ y'.owner.stubs, stub.channel = c := by
  have ho := exec_owner he
  cases call
  case write | tick => exact Except.ok.inj ho ▸ h
  case acquire | poll =>
    obtain ⟨⟨packet, s'⟩, _, ho⟩ := bind_eq_ok.mp ho
    rw [← Except.ok.inj ho]
    exact List.forall_mem_append.mpr ⟨h, List.forall_mem_singleton.mpr rfl⟩
  case push i | release i =>
    cases hi : y.owner.stubs[i]?
    case none =>
      simp only [operation, Option.elim_some, Owner.exec, hi] at ho
      exact Except.ok.inj ho ▸ h
    case some stub =>
      obtain ⟨_, _, _, _, howner⟩ := exists_of_finish hi ho
      intro stub' hs
      rw [howner, List.modify_eq_set_getElem?, hi] at hs
      cases List.mem_or_eq_of_mem_set hs
      case inl hs => exact h stub' hs
      case inr hs => exact hs ▸ h stub (List.mem_of_getElem? hi)

theorem Inv.step {call : Call T} (h : y.Inv c) (hg : y.Guard call) (he : y.exec c call = .ok y') :
    y'.Inv c := by
  have ⟨ch, hc⟩ := h.live
  obtain ⟨ch', hc', _⟩ := (h.refines hg he).live ch hc
  refine ⟨?_, ⟨ch', hc'⟩, stubs_channel h.stubs he⟩
  have ho := exec_owner he
  cases ha : operation c call
  case none =>
    rw [ha] at ho
    exact Except.ok.inj ho ▸ h.owner
  case some a =>
    rw [ha] at ho
    have ⟨hg, hc⟩ := guard_operation hc hg ha
    exact h.owner.step hg hc ho

-- A proper call comes to its end.
theorem Inv.exists_of_proper {call : Call T} (h : y.Inv c) (hg : y.Guard call) (hp : y.Proper c call) :
    ∃ y', y.exec c call = .ok y' := by
  obtain ⟨ch, hc⟩ := h.live
  cases call
  case tick t => exact ⟨_, rfl⟩
  case acquire timestamp args =>
    obtain ⟨packet, s', ha⟩ : ∃ packet s', Channel.acquire y.owner.sched c timestamp y.owner.now =
        .ok (packet, s') := by
      rcases Channel.acquire_spec h.owner.wf h.owner.accounted hc timestamp with
        ⟨p, free, s', _, hs', _⟩ | ⟨_, _, hs'⟩ | ⟨p, rest, q, s', _, _, _, hs', _⟩
      all_goals exact ⟨_, _, hs'⟩
    simp only [exec, Owner.exec, ha, ok_bind, pure_eq_ok]
    split <;> exact ⟨_, rfl⟩
  case write i x =>
    obtain ⟨p, hp⟩ := Option.isSome_iff_exists.mp hp
    exact ⟨{ y with data := Function.update y.data p x }, by simp [exec, hp]⟩
  case push i =>
    obtain ⟨p, hp, ht⟩ := (Option.any_eq_true ..).mp hp
    obtain ⟨stub, hi, hp⟩ := Option.bind_eq_some_iff.mp hp
    have hk : stub.kind = .toFill := by simpa [Guard, hi] using hg
    have hst := h.stubs stub <| List.mem_of_getElem? hi
    have hx := h.mem_clients hi hp (x := .filling c p) <| by rw [hk]
    obtain ⟨s', _, hs', _⟩ := Channel.push_spec h.owner.wf h.owner.accounted hc hx h.owner.clock <| by
      simpa [SchedulerImpl.timestamp, hc] using ht
    exact ⟨_, by simp [exec, Owner.exec, hi, PacketStub.finish, hp, hk, hst, hs']; rfl⟩
  case poll =>
    rcases SchedulerImpl.getNext_spec h.owner.wf h.owner.accounted hc false with
      ⟨_, hs'⟩ | ⟨_, _, _, s', _, _, hs', _⟩
    all_goals exact ⟨_, by simp [exec, Owner.exec, Channel.poll, hs']; rfl⟩
  case release i =>
    obtain ⟨p, hp⟩ := Option.isSome_iff_exists.mp hp
    obtain ⟨stub, hi, hp⟩ := Option.bind_eq_some_iff.mp hp
    have hk : stub.kind = .toProcess := by simpa [Guard, hi] using hg
    have hst := h.stubs stub <| List.mem_of_getElem? hi
    have hx := h.mem_clients hi hp (x := .processing c p) <| by rw [hk]
    have hs' := Channel.release_spec h.owner.accounted hc hx
    exact ⟨_, by simp [exec, Owner.exec, hi, PacketStub.finish, hp, hk, hst, hs']; rfl⟩

theorem Inv.le_capacity (h : y.Inv c) (hc : y.owner.sched.impls c = some ch) :
    (y.bounded c).queued.card + (y.bounded c).held ≤ (y.bounded c).capacity := by
  have hlen := (h.slots hc).length_eq
  rw [h.held_eq hc, bounded_eq hc]
  simp only [List.length_append, List.length_range] at hlen
  simp only [Multiset.coe_card, List.length_map]
  omega

end Poller

variable {T : Type} {c : ChannelId} {capacity : Nat} {y₀ y : Poller T} {calls : List (Call T)}

theorem poller_init (h : (poller T c capacity).Init y) : y.Inv c ∧ y.bounded c = .new capacity ∧
    ∃ name state profileData, y.owner.sched.impls c =
      some ((ChannelImpl.new name capacity state false).setProfileData profileData) := by
  have ⟨y₀, name, state, hr, hst, e⟩ := h
  have hi := Owner.inv hr
  have hn := Option.isNone_iff_eq_none.mp e.guard
  have ⟨s', hs', _, hcr⟩ := SchedulerImpl.createChannel_spec name capacity state false hi.wf hi.idle hn rfl
  have hy : y.owner = { y₀ with sched := s' } := by
    have he := e.exec
    simp only [owner, Owner.exec, hs', ok_bind] at he
    exact (Except.ok.inj he).symm
  have hc : y.owner.sched.impls c = some ((ChannelImpl.new name capacity state false).setProfileData
      (if y₀.sched.profiler then some [] else none)) := by
    rw [hy]
    change s'.impls c = _
    rw [hcr.frame]
    exact Function.update_self ..
  have hnil : y.owner.stubs = [] := hy ▸ hst
  have hcareful : y₀.Careful (.createChannel c name capacity state false) := trivial
  refine ⟨⟨Owner.inv <| hr.step hcareful e, ⟨_, hc⟩, by simp [hnil]⟩, ?_, _, _, _, hc⟩
  rw [Poller.bounded_eq hc, hnil]
  rfl

-- Whatever the thread calls, it gets what a bounded priority queue gives it.
theorem polled_refines (hi : (poller T c capacity).Init y₀)
    (r : (poller T c capacity).Run (fun _ _ => True) y₀ calls y) :
    Execution (Bounded.Queue.Step Prod.fst) (.new capacity) (calls.map Call.event) (y.bounded c) ∧
    (y.owner.sched.impls c).map (·.getFreeBufferLength) = some (y.bounded c).free ∧
    (y.owner.sched.impls c).map (·.getQueuedBufferLength) = some (y.bounded c).queued.card ∧
    (∀ call, y.Guard call → y.Proper c call → ∃ y', y.exec c call = .ok y') ∧
    ∀ timestamp args y', y.exec c (.acquire timestamp args) = .ok y' →
      ((y'.bounded c).handles.getLast? = some ⟨true, none⟩ ↔ (y.bounded c).held = capacity) := by
  have ⟨hinv, hnew, _⟩ := poller_init hi
  have hstep : ∀ z call z', z.Inv c → True ∧ (poller T c capacity).Step z call z' → z'.Inv c :=
    fun _ _ _ h e => h.step e.2.guard e.2.exec
  have hexec := r.map hstep (fun _ _ _ h e => (h.refines e.2.guard e.2.exec).step) hinv
  have h := r.preserves hstep hinv
  have ⟨ch, hc⟩ := h.live
  rw [hnew] at hexec
  refine ⟨hexec, ?_, ?_, fun call hg hp => h.exists_of_proper hg hp, fun timestamp args y' he => ?_⟩
  · rw [hc, h.free_eq hc]
    rfl
  · rw [hc, Poller.bounded_eq hc]
    simp [ChannelImpl.getQueuedBufferLength, SteadyHeap.size]
  · have hcap : (y.bounded c).capacity = capacity :=
      hexec.preserves (P := fun q => q.capacity = capacity) (fun _ _ _ h e => e.capacity_eq.trans h) rfl
    have hstep : Poller.Refines c y (.acquire timestamp args) y' := h.refines trivial he
    exact (hstep.step.refused_iff <| h.le_capacity hc).trans <| by rw [hcap]

end PipeRT
