import PipeRT.Stub.Calls
import PipeRT.System.Invariant

namespace PipeRT

-- The classes that derive from `PacketStub<T>`.
inductive StubKind where
  | toFill
  | toProcess
  deriving DecidableEq, Repr

structure PacketStub where
  kind    : StubKind
  channel : ChannelId
  packet  : Option Slot
  deriving DecidableEq, Repr

namespace PacketStub

def isEmpty (stub : PacketStub) : Bool :=
  stub.packet.isNone

def setEmpty (stub : PacketStub) : PacketStub :=
  { stub with packet := none }

-- `PacketStub::move` from the stub at index `o` to the one at index `i`, which may be the same.
def move (stubs : List PacketStub) (i o : Nat) : List PacketStub :=
  match stubs[i]?, stubs[o]? with
  | some this, some other =>
    let stubs := stubs.set i { this with channel := other.channel, packet := other.packet }
    stubs.modify o setEmpty
  | _, _ => stubs

-- `PacketToFill<T>::Push` and `PacketToProcess<T>::Release`, except that the stub gets empty.
def finish (stub : PacketStub) (s : SchedulerImpl) (t : Time) : Except Fault SchedulerImpl :=
  match stub.packet, stub.kind with
  | none, _                 => .error .assertion
  | some packet, .toFill    => Channel.push s stub.channel packet t
  | some packet, .toProcess => Channel.release s stub.channel packet t

-- How far the thread that has the stub is.
def client? (stub : PacketStub) : Option Client :=
  match stub.kind with
  | .toFill    => stub.packet.map (.filling stub.channel)
  | .toProcess => stub.packet.map (.processing stub.channel)

def clients (stubs : List PacketStub) : List Client :=
  stubs.filterMap client?

-- The packets of the channel that the stubs refer to.
def heldBy (c : ChannelId) (stubs : List PacketStub) : List Slot :=
  stubs.filterMap fun stub => if stub.channel = c then stub.packet else none

variable {stubs : List PacketStub} {stub stub' : PacketStub} {c : ChannelId} {i o : Nat}

@[simp]
theorem setEmpty_client? : stub.setEmpty.client? = none := by
  cases hk : stub.kind <;> simp [client?, setEmpty, hk]

theorem client?_eq_none : stub.client? = none ↔ stub.isEmpty = true := by
  cases hk : stub.kind <;> simp [client?, isEmpty, hk]

theorem heldBy_eq : heldBy c stubs = Client.heldBy Client.packet? c (clients stubs) := by
  rw [Client.heldBy, clients, List.filterMap_filterMap, heldBy]
  refine List.filterMap_congr fun stub _ => ?_
  cases hk : stub.kind <;> cases hp : stub.packet <;>
    simp [client?, hk, hp, Client.channel, Client.packet?, Client.fills, Client.processes]

theorem perm_cons_eraseIdx {α : Type} {xs : List α} {x : α} (h : xs[i]? = some x) :
    xs.Perm (x :: xs.eraseIdx i) := by
  have ⟨hlt, hx⟩ := List.getElem?_eq_some_iff.mp h
  exact hx ▸ (List.getElem_cons_eraseIdx_perm hlt).symm

theorem clients_eraseIdx (h : stubs[i]? = some stub) :
    (clients stubs).Perm (stub.client?.toList ++ clients (stubs.eraseIdx i)) := by
  refine ((perm_cons_eraseIdx h).filterMap _).trans <| .of_eq ?_
  cases hx : stub.client? <;> simp [clients, hx]

theorem clients_set (stub' : PacketStub) (h : stubs[i]? = some stub) :
    (clients (stubs.set i stub')).Perm (stub'.client?.toList ++ clients (stubs.eraseIdx i)) := by
  have ⟨hlt, _⟩ := List.getElem?_eq_some_iff.mp h
  have := clients_eraseIdx (List.getElem?_set_self (a := stub') hlt)
  rwa [List.eraseIdx_set_eq] at this

theorem clients_setEmpty (h : stubs[i]? = some stub) :
    (clients stubs).Perm (stub.client?.toList ++ clients (stubs.modify i setEmpty)) := by
  have hi : (stubs.modify i setEmpty)[i]? = some stub.setEmpty := by simp [h]
  have he := clients_eraseIdx hi
  rw [setEmpty_client?, List.eraseIdx_modify_of_eq] at he
  exact (clients_eraseIdx h).trans <| he.symm.append_left _

-- A move to an empty stub does not lose a packet.
theorem clients_move (hi : stubs[i]? = some stub) (ho : stubs[o]? = some stub')
    (hk : stub.kind = stub'.kind) (he : stub.isEmpty = true) :
    (clients (move stubs i o)).Perm (clients stubs) := by
  have hnone := client?_eq_none.mpr he
  simp only [move, hi, ho]
  have ⟨hlt, hget⟩ := List.getElem?_eq_some_iff.mp hi
  by_cases hio : i = o
  case pos =>
    subst hio
    obtain rfl := Option.some.inj <| hi.symm.trans ho
    have hset : stubs.set i { stub with channel := stub.channel, packet := stub.packet } = stubs := by
      rw [← hget, List.set_getElem_self]
    have hperm := clients_setEmpty hi
    rw [hnone] at hperm
    rw [hset]
    exact hperm.symm
  case neg =>
    have hset := clients_set { stub with channel := stub'.channel, packet := stub'.packet } hi
    have hclient : { stub with channel := stub'.channel, packet := stub'.packet }.client? =
        stub'.client? := by
      rw [client?, client?, hk]
    rw [hclient] at hset
    have ho' := (List.getElem?_set_ne (a := { stub with channel := stub'.channel, packet := stub'.packet })
      hio).trans ho
    have hperm := clients_eraseIdx hi
    rw [hnone] at hperm
    refine (List.perm_append_left_iff stub'.client?.toList).mp ?_
    exact (clients_setEmpty ho').symm.trans <| hset.trans <| hperm.symm.append_left _

end PacketStub

-- A thread of the user that runs alone, with the stubs that are alive.
structure Owner where
  sched : SchedulerImpl
  now   : Time
  stubs : List PacketStub

-- The stubs are named by their indices.
inductive Operation where
  | tick (t : Time)
  | createChannel (channel : ChannelId) (name : String) (capacity : Nat) (state : Ptr) (callback : Bool)
  | acquire (channel : ChannelId) (timestamp : Time)
  | poll (channel : ChannelId)
  | moveConstruct (o : Nat)
  | moveAssign (i o : Nat)
  -- `Push` or `Release`.
  | finish (i : Nat)
  -- The destructor of a stub.
  | destruct (i : Nat)
  deriving DecidableEq, Repr

namespace Owner

protected def new (workersNumber : Nat) (profiler : Bool) (now : Time) : Owner where
  sched := .new workersNumber profiler
  now   := now
  stubs := []

-- A stub is assigned to a stub of the same kind only.
def Guard (y : Owner) : Operation → Prop
  | .tick t                                  => y.now ≤ t ∧ t < kMaxTime
  | .createChannel c _ _ _ _                 => (y.sched.impls c).isNone = true
  | .acquire c _ | .poll c                   => (y.sched.impls c).isSome = true
  | .moveAssign i o                          => (y.stubs[i]?).isSome = true ∧
                                                y.stubs[i]?.map (·.kind) = y.stubs[o]?.map (·.kind)
  | .moveConstruct i | .finish i | .destruct i => (y.stubs[i]?).isSome = true

instance {y : Owner} : DecidablePred y.Guard
  | .tick _ | .moveAssign .. => inferInstanceAs (Decidable (_ ∧ _))
  | .createChannel .. | .acquire .. | .poll _ | .moveConstruct _ | .finish _ | .destruct _ =>
    inferInstanceAs (Decidable (_ = _))

def exec (y : Owner) : Operation → Except Fault Owner
  | .tick t => return { y with now := t }
  | .createChannel c name capacity state callback => do
    let sched ← y.sched.createChannel c name capacity state callback
    return { y with sched }
  | .acquire c timestamp => do
    let (packet, sched) ← Channel.acquire y.sched c timestamp y.now
    return { y with sched, stubs := y.stubs ++ [{ kind := .toFill, channel := c, packet }] }
  | .poll c => do
    let (packet, sched) ← Channel.poll y.sched c y.now
    return { y with sched, stubs := y.stubs ++ [{ kind := .toProcess, channel := c, packet }] }
  | .moveConstruct o =>
    match y.stubs[o]? with
    | none       => return y
    | some other =>
      -- The members of the new stub do not matter until `move` assigns to them.
      return { y with stubs := PacketStub.move (y.stubs ++ [other.setEmpty]) y.stubs.length o }
  | .moveAssign i o => return { y with stubs := PacketStub.move y.stubs i o }
  | .finish i =>
    match y.stubs[i]? with
    | none      => return y
    | some stub => do
      let sched ← stub.finish y.sched y.now
      return { y with sched, stubs := y.stubs.modify i PacketStub.setEmpty }
  | .destruct i =>
    match y.stubs[i]? with
    | none      => return y
    | some stub => do
      let sched ← if stub.isEmpty then .ok y.sched else stub.finish y.sched y.now
      return { y with sched, stubs := y.stubs.eraseIdx i }

-- Nothing is assigned to a stub that has a packet.
def Careful (y : Owner) : Operation → Prop
  | .moveAssign i _ => y.stubs[i]?.all PacketStub.isEmpty = true
  | _               => True

instance {y : Owner} : DecidablePred y.Careful
  | .moveAssign .. => inferInstanceAs (Decidable (_ = _))
  | .tick _ | .createChannel .. | .acquire .. | .poll _ | .moveConstruct _ | .finish _
  | .destruct _ => .isTrue trivial

-- What holds between two operations.
structure Inv (y : Owner) : Prop where
  wf        : y.sched.WF
  idle      : y.sched.running = false
  accounted : Accounted y.sched.impls (PacketStub.clients y.stubs) y.now
  clock     : y.now < kMaxTime

variable {y y' : Owner} {a : Operation}

theorem Inv.new {workersNumber : Nat} {profiler : Bool} {now : Time} (ht : now < kMaxTime) :
    (Owner.new workersNumber profiler now).Inv where
  wf        := .new ..
  idle      := rfl
  accounted := ⟨nofun, nofun, nofun, nofun⟩
  clock     := ht

-- `Push` or `Release`, which leaves the other stubs alone.
theorem Inv.finish {stub : PacketStub} {s : SchedulerImpl} {rest : List Client} (h : y.Inv)
    (hp : (PacketStub.clients y.stubs).Perm (stub.client?.toList ++ rest))
    (hs : stub.finish y.sched y.now = .ok s) : Thread.Inv y.now rest (none, s) := by
  rw [PacketStub.finish] at hs
  rw [PacketStub.client?] at hp
  split at hs
  case h_1 => contradiction
  case h_2 packet hpk hk =>
    have ⟨_, hexec⟩ := Channel.push_execution hs
    refine Thread.Inv.execution (x := (some (.filling stub.channel packet), y.sched)) ?_ h.clock hexec
    exact ⟨h.wf, h.idle, h.accounted.perm <| by simpa [hk, hpk] using hp⟩
  case h_3 packet hpk hk =>
    have ⟨_, hexec⟩ := Channel.release_execution hs
    refine Thread.Inv.execution (x := (some (.processing stub.channel packet), y.sched)) ?_ h.clock hexec
    exact ⟨h.wf, h.idle, h.accounted.perm <| by simpa [hk, hpk] using hp⟩

-- A new stub for the packet that a call got.
theorem Inv.made {stub : PacketStub} {s : SchedulerImpl} (h : y.Inv)
    (hs : Thread.Inv y.now (PacketStub.clients y.stubs) (stub.client?, s)) :
    Inv { y with sched := s, stubs := y.stubs ++ [stub] } := by
  refine ⟨hs.wf, hs.idle, hs.accounted.perm ?_, h.clock⟩
  rw [PacketStub.clients, PacketStub.clients, List.filterMap_append]
  refine List.perm_append_comm.trans <| .of_eq ?_
  cases hc : stub.client? <;> simp [hc]

theorem Inv.step (h : y.Inv) (hg : y.Guard a) (hc : y.Careful a) (he : y.exec a = .ok y') : y'.Inv := by
  cases a
  case tick t =>
    obtain rfl := Except.ok.inj he
    exact ⟨h.wf, h.idle, h.accounted.tick hg.1, hg.2⟩
  case createChannel c name capacity state callback =>
    have hn := Option.isNone_iff_eq_none.mp hg
    have ⟨s', hs', hwf, hcr⟩ := SchedulerImpl.createChannel_spec name capacity state callback
      h.wf h.idle hn rfl
    simp only [exec, hs', ok_bind] at he
    obtain rfl := Except.ok.inj he
    have himpls := congrArg SchedulerImpl.impls hcr.frame
    refine ⟨hwf, (congrArg SchedulerImpl.running hcr.frame).trans h.idle, ?_, h.clock⟩
    change Accounted s'.impls (PacketStub.clients y.stubs) y.now
    rw [himpls]
    exact h.accounted.create hn (List.reverse_perm _) rfl
  case acquire c timestamp =>
    have ⟨ch, hch⟩ := Option.isSome_iff_exists.mp hg
    have ⟨⟨packet, s'⟩, ha, he⟩ := bind_eq_ok.mp he
    obtain rfl := Except.ok.inj he
    have ⟨_, hexec⟩ := Channel.acquire_execution ha
    exact h.made <| Thread.Inv.execution ⟨h.wf, h.idle, h.accounted.acquire hch timestamp⟩ h.clock hexec
  case poll c =>
    have ⟨ch, hch⟩ := Option.isSome_iff_exists.mp hg
    have ⟨⟨packet, s'⟩, hp, he⟩ := bind_eq_ok.mp he
    obtain rfl := Except.ok.inj he
    have ⟨p, ch', s'', hs', hwf, hr, hm⟩ := SchedulerImpl.poll_spec h.wf h.accounted hch
    obtain ⟨rfl, rfl⟩ := Prod.mk.inj <| Except.ok.inj <| hs'.symm.trans hp
    have hframe : s''.running = y.sched.running := by rw [hr.frame]; rfl
    refine h.made ⟨hwf, hframe.trans h.idle, ?_⟩
    change Accounted s''.impls _ y.now
    rw [hr.impls]
    exact h.accounted.move _ hch (.refl _) hm
  case moveConstruct o =>
    have ⟨other, ho⟩ := Option.isSome_iff_exists.mp hg
    simp only [exec, ho] at he
    obtain rfl := Except.ok.inj he
    refine ⟨h.wf, h.idle, h.accounted.perm ?_, h.clock⟩
    have hlt := (List.getElem?_eq_some_iff.mp ho).1
    have hnew : (y.stubs ++ [other.setEmpty])[y.stubs.length]? = some other.setEmpty :=
      List.getElem?_concat_length ..
    have hperm := PacketStub.clients_move hnew ((List.getElem?_append_left hlt).trans ho) rfl rfl
    refine .trans (.of_eq ?_) hperm.symm
    simp [PacketStub.clients]
  case moveAssign i o =>
    obtain rfl := Except.ok.inj he
    have ⟨this, hi⟩ := Option.isSome_iff_exists.mp hg.1
    have hk := hg.2
    simp only [hi, Option.map_some] at hk
    have ⟨other, ho, hk⟩ := Option.map_eq_some_iff.mp hk.symm
    have hempty : this.isEmpty = true := by simpa [Careful, hi] using hc
    exact ⟨h.wf, h.idle, h.accounted.perm (PacketStub.clients_move hi ho hk.symm hempty).symm, h.clock⟩
  case finish i =>
    have ⟨stub, hi⟩ := Option.isSome_iff_exists.mp hg
    simp only [exec, hi] at he
    have ⟨s', hs', he⟩ := bind_eq_ok.mp he
    obtain rfl := Except.ok.inj he
    have hinv := h.finish (PacketStub.clients_setEmpty hi) hs'
    exact ⟨hinv.wf, hinv.idle, hinv.accounted, h.clock⟩
  case destruct i =>
    have ⟨stub, hi⟩ := Option.isSome_iff_exists.mp hg
    have hperm := PacketStub.clients_eraseIdx hi
    cases hempty : stub.isEmpty
    case true =>
      simp only [exec, hi, hempty, if_true] at he
      obtain rfl := Except.ok.inj he
      rw [PacketStub.client?_eq_none.mpr hempty] at hperm
      exact ⟨h.wf, h.idle, h.accounted.perm hperm, h.clock⟩
    case false =>
      simp only [exec, hi, hempty] at he
      have ⟨s', hs', he⟩ := bind_eq_ok.mp he
      obtain rfl := Except.ok.inj he
      have hinv := h.finish hperm hs'
      exact ⟨hinv.wf, hinv.idle, hinv.accounted, h.clock⟩

end Owner

-- An owner begins with a scheduler that has no channels.
def owner : Machine Owner Operation Fault where
  Init y := ∃ workersNumber profiler now, now < kMaxTime ∧ y = .new workersNumber profiler now
  Guard  := Owner.Guard
  exec   := Owner.exec

instance (y : Owner) (a : Operation) : Decidable (owner.Guard y a) :=
  inferInstanceAs (Decidable (y.Guard a))

theorem Owner.inv {y : Owner} (h : owner.Reachable Owner.Careful y) : y.Inv := by
  refine h.induction (fun _ => ?_) fun y a y' _ hi hc e => hi.step e.guard hc e.exec
  rintro ⟨_, _, _, ht, rfl⟩
  exact .new ht

-- As long as nothing is assigned to a stub that has a packet, every slot of a pool is in one place.
theorem slots_conserved {y : Owner} (h : owner.Reachable Owner.Careful y) {c : ChannelId}
    {ch : ChannelImpl} (hc : y.sched.impls c = some ch) :
    (ch.freePackets ++ ch.queuedPackets.heap ++ PacketStub.heldBy c y.stubs).Perm
      (List.range ch.capacity) ∧
    (y.stubs = [] → ch.getFreeBufferLength + ch.getQueuedBufferLength = ch.capacity) := by
  have hs := (Owner.inv h).accounted.slots c ch hc
  rw [← PacketStub.heldBy_eq] at hs
  refine ⟨hs, fun hn => ?_⟩
  have hlen := hs.length_eq
  simpa [hn, PacketStub.heldBy, ChannelImpl.getFreeBufferLength, ChannelImpl.getQueuedBufferLength,
    SteadyHeap.size] using hlen

-- Two packets are pushed, and both are polled.
def pollTwice : List Operation := [
  .createChannel 1 "OutChannel" 2 nullptr false,
  .acquire 1 0, .destruct 0, .acquire 1 1, .moveConstruct 0, .destruct 1, .destruct 0,
  .poll 1, .poll 1]

theorem slots_conserved_pollTwice :
    ∃ (y : Owner) (ch : ChannelImpl), y.sched.impls 1 = some ch ∧ ch.capacity = 2 ∧
      y.stubs = [{ kind := .toProcess, channel := 1, packet := some 1 },
        { kind := .toProcess, channel := 1, packet := none }] ∧
      (ch.freePackets ++ ch.queuedPackets.heap ++ PacketStub.heldBy 1 y.stubs).Perm
        (List.range ch.capacity) ∧
      (y.stubs = [] → ch.getFreeBufferLength + ch.getQueuedBufferLength = ch.capacity) := by
  have ⟨y, hr, hst, hs⟩ := Machine.exists_reachable_of_replay (M := owner)
    (s := .new 1 false 5) Owner.Careful (pollTwice ++ [.finish 0, .moveAssign 0 1])
    (P := fun y => y.stubs = [{ kind := .toProcess, channel := 1, packet := some 1 },
        { kind := .toProcess, channel := 1, packet := none }] ∧
      (y.sched.impls 1).any (fun ch => decide (ch.capacity = 2)) = true)
    ⟨1, false, 5, by decide, rfl⟩ (by decide)
  have ⟨ch, hc, hcap⟩ := (Option.any_eq_true ..).mp hs
  exact ⟨y, ch, hc, of_decide_eq_true hcap, hst, slots_conserved hr hc⟩

-- The second packet is assigned to the stub of the first one, before both stubs are destroyed.
theorem pollTwice_loses :
    ∃ (y : Owner) (ch : ChannelImpl), owner.Reachable (fun _ _ => True) y ∧
      y.sched.impls 1 = some ch ∧ y.stubs = [] ∧ ch.capacity = 2 ∧
      ch.freePackets = [1] ∧ ch.queuedPackets.heap = [] ∧
      ¬(ch.freePackets ++ ch.queuedPackets.heap ++ PacketStub.heldBy 1 y.stubs).Perm
        (List.range ch.capacity) ∧
      ch.getFreeBufferLength + ch.getQueuedBufferLength ≠ ch.capacity := by
  have ⟨y, hr, hst, hs⟩ := Machine.exists_reachable_of_replay (M := owner)
    (s := .new 1 false 5) (fun _ _ => True)
    (pollTwice ++ [.moveAssign 0 1, .destruct 1, .destruct 0])
    (P := fun y => y.stubs = [] ∧ (y.sched.impls 1).any (fun ch => decide
      (ch.capacity = 2 ∧ ch.freePackets = [1] ∧ ch.queuedPackets.heap = [])) = true)
    ⟨1, false, 5, by decide, rfl⟩ (by decide)
  have ⟨ch, hc, hp⟩ := (Option.any_eq_true ..).mp hs
  have ⟨hcap, hfree, hqueue⟩ := of_decide_eq_true hp
  refine ⟨y, ch, hr, hc, hst, hcap, hfree, hqueue, fun hperm => ?_, ?_⟩
  · have := hperm.length_eq
    simp [hst, hcap, hfree, hqueue, PacketStub.heldBy] at this
  · simp [ChannelImpl.getFreeBufferLength, ChannelImpl.getQueuedBufferLength, SteadyHeap.size, hcap,
      hfree, hqueue]

end PipeRT
